import Mathlib.Data.List.Chain
import Etude.Base.Run
import Etude.Volumes.Model

/-!
# MountPoints — whose path names are printed under a volume

The length that the system stored for one volume is the length passed for the next one.  So a call
fails when the list of a volume is longer than that of the volume before it, and what is printed
then is what the buffer still holds.
-/

namespace Etude
namespace Volumes

open Base Base.MultiSz

/-! ## Volumes and the call for their path names -/

/-- A volume whose path names fit into the buffer `PathName`. -/
structure Volume where
  name : List WChar
  pathNames : List (Name WChar)
  fits : (multiSz pathNames).length ≤ pathSize

def Volume.listLength (v : Volume) : ℕ :=
  (multiSz v.pathNames).length

/-- What `GetVolumePathNamesForVolumeName` does for the volume `v`. -/
structure Documented (win : Windows) (v : Volume) : Prop where
  enough : ∀ buffer capacity, v.listLength ≤ capacity → capacity ≤ buffer.length →
    ∃ behind, win.getVolumePathNamesForVolumeName v.name buffer capacity =
        (true, multiSz v.pathNames ++ behind, v.listLength) ∧
      (multiSz v.pathNames ++ behind).length = buffer.length
  short : ∀ buffer capacity, capacity < v.listLength →
    win.getVolumePathNamesForVolumeName v.name buffer capacity = (false, buffer, v.listLength)

/-! ## Names as they are printed -/

/-- The second character is a colon, as behind a drive letter. -/
def HasColon (name : Name WChar) : Prop :=
  name.chars[1]? = some 58

theorem driverPathName_eq_iff (name : Name WChar) :
    driverPathName name.chars = name.chars ↔ HasColon name := by
  by_cases h : name.chars[1]? = some 58
  · simp [driverPathName, HasColon, h]
  · simp [driverPathName, HasColon, h]

theorem map_driverPathName_eq_iff (names : List (Name WChar)) :
    (names.map fun name => driverPathName name.chars) = names.map Name.chars ↔
      ∀ name ∈ names, HasColon name := by
  rw [List.map_inj_left]
  exact forall₂_congr fun name _ => driverPathName_eq_iff name

theorem length_driverPathName_le (nameIdx : List WChar) :
    (driverPathName nameIdx).length ≤ nameIdx.length + 1 := by
  unfold driverPathName
  split_ifs <;> simp

theorem pathLine_eq (win : Windows) (deviceName : List WChar) {nameIdx : List WChar}
    (h : nameIdx.length + 2 ≤ pathSize) :
    ∃ line, pathLine win deviceName nameIdx = some line ∧
      line.driverPathName = driverPathName nameIdx := by
  have hlen := length_driverPathName_le nameIdx
  exact ⟨_, if_pos (by omega), rfl⟩

theorem mapM_pathLine (win : Windows) (deviceName : List WChar) {names : List (List WChar)}
    (h : ∀ name ∈ names, name.length + 2 ≤ pathSize) :
    ∃ paths, names.mapM (pathLine win deviceName) = some paths ∧
      paths.map PathLine.driverPathName = names.map driverPathName := by
  induction names with
  | nil =>
      exact ⟨[], rfl, rfl⟩
  | cons name names ih =>
      rcases pathLine_eq win deviceName (h name (by simp)) with ⟨line, hline, hdriver⟩
      rcases ih fun n hn => h n (by simp [hn]) with ⟨paths, hpaths, hmap⟩
      refine ⟨line :: paths, ?_, ?_⟩
      · rw [List.mapM_cons, hline, hpaths]
        rfl
      · rw [List.map_cons, List.map_cons, hmap, hdriver]

/-! ## One volume -/

/-- The buffer starts with the list `names`. -/
structure Holds (names : List (Name WChar)) (s : State) : Prop where
  pathName_eq : ∃ behind, s.pathName = multiSz names ++ behind
  length_eq : s.pathName.length = pathSize

def Listing.printed (l : Listing) : List (List WChar) :=
  l.paths.map PathLine.driverPathName

/-- The list in the buffer after the call: that of the volume if the length passed is enough, and
otherwise the one that was there. -/
def nowHeld (stale : List (Name WChar)) (s : State) (v : Volume) : List (Name WChar) :=
  if v.listLength ≤ s.charCount then v.pathNames else stale

theorem call_spec {win : Windows} {v : Volume} (hv : Documented win v)
    {stale : List (Name WChar)} {s : State} (h : Holds stale s)
    (hcount : s.charCount ≤ pathSize) :
    ∃ ok pathName, win.getVolumePathNamesForVolumeName v.name s.pathName s.charCount =
        (ok, pathName, v.listLength) ∧
      (∃ behind, pathName = multiSz (nowHeld stale s v) ++ behind) ∧
      pathName.length = pathSize := by
  by_cases hle : v.listLength ≤ s.charCount
  · rcases hv.enough s.pathName s.charCount hle (by rw [h.length_eq]; exact hcount) with
      ⟨behind, hcall, hlen⟩
    rw [h.length_eq] at hlen
    exact ⟨true, _, hcall, ⟨behind, by rw [nowHeld, if_pos hle]⟩, hlen⟩
  · rw [nowHeld, if_neg hle]
    exact ⟨false, s.pathName, hv.short _ _ (Nat.lt_of_not_le hle), h.pathName_eq, h.length_eq⟩

theorem listVolume_spec {win : Windows} {v : Volume} (hv : Documented win v)
    {stale : List (Name WChar)} {s : State} (h : Holds stale s)
    (hcount : s.charCount ≤ pathSize) :
    ∃ t out, listVolume win s v.name = some (t, out) ∧ Holds (nowHeld stale s v) t ∧
      t.charCount = v.listLength ∧ out.passed = s.charCount ∧
      out.printed = (nowHeld stale s v).map fun name => driverPathName name.chars := by
  rcases call_spec hv h hcount with ⟨ok, pathName, hcall, ⟨behind, hbuffer⟩, hlen⟩
  have hwalk : walk pathName = some ((nowHeld stale s v).map Name.chars) := by
    rw [hbuffer, walk_multiSz]
  -- Every name is shorter than the buffer that it was read from.
  have hshort : ∀ name ∈ (nowHeld stale s v).map Name.chars, name.length + 2 ≤ pathSize := by
    intro name hname
    rcases List.mem_map.mp hname with ⟨n, hn, rfl⟩
    have hle := length_lt_multiSz hn
    rw [← hlen, hbuffer, List.length_append]
    omega
  generalize hdevice : (win.queryDosDevice (v.name.dropLast.drop 4)).getD s.deviceName = deviceName
  rcases mapM_pathLine win deviceName hshort with ⟨paths, hpaths, hmap⟩
  refine ⟨{ deviceName := deviceName
            pathName := pathName
            charCount := v.listLength },
    { volumeName := v.name
      deviceName := deviceName
      paths := paths
      passed := s.charCount }, ?_, ?_, rfl, rfl, ?_⟩
  · simp only [listVolume, hcall, hwalk, hdevice, hpaths, Option.bind_eq_bind, Option.bind_some]
  · exact
      { pathName_eq := ⟨behind, hbuffer⟩
        length_eq := hlen }
  · rw [Listing.printed, hmap, List.map_map]
    rfl

/-! ## The whole list -/

/-- Under each volume its own path names are printed, and no call is told that the buffer is
larger than it is. -/
def ListsOwn (win : Windows) (s : State) (vs : List Volume) : Prop :=
  ∃ t outs, runOut (listVolume win) s (vs.map Volume.name) = some (t, outs) ∧
    outs.map Listing.printed = vs.map (fun v => v.pathNames.map Name.chars) ∧
    ∀ out ∈ outs, out.passed ≤ pathSize

theorem listsOwn_cons {win : Windows} {s : State} {v : Volume} {vs : List Volume} {t : State}
    {out : Listing} (hstep : listVolume win s v.name = some (t, out)) :
    ListsOwn win s (v :: vs) ↔
      (out.printed = v.pathNames.map Name.chars ∧ out.passed ≤ pathSize) ∧ ListsOwn win t vs := by
  constructor
  · rintro ⟨u, outs, hrun, hprinted, hpassed⟩
    rcases runOut_cons_eq_some.mp hrun with ⟨t', out', outs', ht', hrest, rfl⟩
    rw [hstep] at ht'
    cases ht'
    rw [List.map_cons, List.map_cons, List.cons.injEq] at hprinted
    exact ⟨⟨hprinted.1, hpassed out (by simp)⟩, u, outs', hrest, hprinted.2,
      fun o ho => hpassed o (by simp [ho])⟩
  · rintro ⟨⟨hprinted, hpassed⟩, u, outs, hrest, hprinteds, hpasseds⟩
    refine ⟨u, out :: outs, runOut_cons_eq_some.mpr ⟨t, out, outs, hstep, hrest, rfl⟩, ?_, ?_⟩
    · rw [List.map_cons, List.map_cons, hprinted, hprinteds]
    · intro o ho
      rcases List.mem_cons.mp ho with rfl | ho
      · exact hpassed
      · exact hpasseds o ho

/-- From a state whose buffer holds a list of names with colons, no longer than `CharCount`. -/
theorem listsOwn_iff_chain {win : Windows} {vs : List Volume} (hwin : ∀ v ∈ vs, Documented win v)
    {stale : List (Name WChar)} {s : State} (h : Holds stale s)
    (hstale : (multiSz stale).length ≤ s.charCount) (hcolon : ∀ name ∈ stale, HasColon name)
    (hcount : s.charCount ≤ pathSize) :
    ListsOwn win s vs ↔
      (s.charCount :: vs.map Volume.listLength).IsChain (· ≥ ·) ∧
        ∀ v ∈ vs, ∀ name ∈ v.pathNames, HasColon name := by
  induction vs generalizing s stale with
  | nil =>
      simp [ListsOwn, runOut]
  | cons v vs ih =>
      have htail : ∀ w ∈ vs, Documented win w := fun w hw => hwin w (by simp [hw])
      rcases listVolume_spec (hwin v (by simp)) h hcount with
        ⟨t, out, hstep, hholds, htcount, hpassed, hprinted⟩
      have hfits : t.charCount ≤ pathSize := by
        rw [htcount]
        exact v.fits
      rw [listsOwn_cons hstep, List.map_cons, List.isChain_cons_cons, hprinted, hpassed,
        List.forall_mem_cons]
      by_cases hle : v.listLength ≤ s.charCount
      · -- The call succeeds; what is printed are the names, with colons where they have none.
        have hnow : nowHeld stale s v = v.pathNames := by rw [nowHeld, if_pos hle]
        rw [hnow] at hholds ⊢
        rw [map_driverPathName_eq_iff]
        constructor
        · rintro ⟨⟨hv, -⟩, hrest⟩
          have hih := (ih htail hholds (by rw [htcount]; exact Nat.le_refl _) hv hfits).mp hrest
          rw [htcount] at hih
          exact ⟨⟨hle, hih.1⟩, hv, hih.2⟩
        · rintro ⟨⟨-, hchain⟩, hv, hvs⟩
          have hih := ih htail hholds (by rw [htcount]; exact Nat.le_refl _) hv hfits
          rw [htcount] at hih
          exact ⟨⟨hv, hcount⟩, hih.mpr ⟨hchain, hvs⟩⟩
      · -- The call fails; the names printed make a shorter list than those of the volume.
        have hnow : nowHeld stale s v = stale := by rw [nowHeld, if_neg hle]
        rw [hnow, (map_driverPathName_eq_iff stale).mpr hcolon]
        constructor
        · rintro ⟨⟨hsame, -⟩, -⟩
          rw [map_chars_injective hsame] at hstale
          exact absurd hstale hle
        · rintro ⟨⟨hge, -⟩, -⟩
          exact absurd hge hle

theorem start_holds : Holds [] start :=
  { pathName_eq := ⟨List.replicate 260 0, rfl⟩
    length_eq := List.length_replicate }

/-- Each volume is listed with its own path names exactly if no list is longer than the one
before it and no name needs a colon. -/
theorem listsOwn_iff_nonincreasing {win : Windows} {vs : List Volume}
    (hwin : ∀ v ∈ vs, Documented win v) :
    ListsOwn win start vs ↔
      (vs.map Volume.listLength).IsChain (· ≥ ·) ∧
        ∀ v ∈ vs, ∀ name ∈ v.pathNames, HasColon name := by
  rw [listsOwn_iff_chain hwin start_holds (by decide) (by simp) (Nat.le_refl _)]
  have hfirst : (start.charCount :: vs.map Volume.listLength).IsChain (· ≥ ·) ↔
      (vs.map Volume.listLength).IsChain (· ≥ ·) := by
    cases vs with
    | nil =>
        simp
    | cons v vs =>
        rw [List.map_cons, List.isChain_cons_cons]
        exact and_iff_right v.fits
  rw [hfirst]

/-! ### A system with two volumes -/

/-- A system that has the volumes `vs`; their devices are not disks. -/
def windowsOf (vs : List Volume) : Windows where
  getVolumePathNamesForVolumeName volumeName buffer capacity :=
    match vs.find? fun v => v.name = volumeName with
    | some v =>
        if v.listLength ≤ capacity then
          (true, multiSz v.pathNames ++ buffer.drop v.listLength, v.listLength)
        else (false, buffer, v.listLength)
    | none => (false, buffer, capacity)
  queryDosDevice _ := none
  getDiskFreeSpaceEx _ := none

theorem windowsOf_documented {vs : List Volume} {v : Volume}
    (hfind : (vs.find? fun w => w.name = v.name) = some v) : Documented (windowsOf vs) v :=
  { enough := by
      intro buffer capacity hle hcap
      refine ⟨buffer.drop v.listLength, by simp [windowsOf, hfind, hle], ?_⟩
      rw [List.length_append, List.length_drop]
      exact Nat.add_sub_cancel' (Nat.le_trans hle hcap)
    short := by
      intro buffer capacity hlt
      simp [windowsOf, hfind, Nat.not_le_of_lt hlt] }

/-- A partition that is mounted nowhere. -/
def recovery : Volume :=
  { name := wide "\\\\?\\Volume\x7b1\x7d\\"
    pathNames := []
    fits := by decide }

/-- The drive `C:`. -/
def system : Volume :=
  { name := wide "\\\\?\\Volume\x7b2\x7d\\"
    pathNames := [⟨wide "C:\\", by decide, by decide⟩]
    fits := by decide }

theorem windowsOf_recovery_system :
    ∀ v ∈ [recovery, system], Documented (windowsOf [recovery, system]) v := by
  intro v hv
  simp only [List.mem_cons, List.not_mem_nil, or_false] at hv
  rcases hv with rfl | rfl
  · exact windowsOf_documented rfl
  · exact windowsOf_documented rfl

theorem listsOwn_systemFirst :
    ListsOwn (windowsOf [recovery, system]) start [system, recovery] := by
  have hwin : ∀ v ∈ [system, recovery], Documented (windowsOf [recovery, system]) v :=
    fun v hv => windowsOf_recovery_system v (List.mem_cons.mpr (by simpa [or_comm] using hv))
  refine (listsOwn_iff_nonincreasing hwin).mpr ⟨by decide, ?_⟩
  intro v hv name hname
  simp only [List.mem_cons, List.not_mem_nil, or_false] at hv
  rcases hv with rfl | rfl
  · rw [List.mem_singleton.mp hname]
    rfl
  · cases hname

/-- After a volume without path names those of `C:` are not printed. -/
theorem not_listsOwn_recoveryFirst :
    (∀ v ∈ [recovery, system], Documented (windowsOf [recovery, system]) v) ∧
      ¬ ListsOwn (windowsOf [recovery, system]) start [recovery, system] := by
  refine ⟨windowsOf_recovery_system, ?_⟩
  rw [listsOwn_iff_chain windowsOf_recovery_system start_holds (by decide) (by simp)
    (Nat.le_refl _)]
  rintro ⟨hchain, -⟩
  exact absurd hchain (by decide)

end Volumes
end Etude
