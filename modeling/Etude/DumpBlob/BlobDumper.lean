import Etude.Base.ReadShow
import Etude.Base.Table
import Mathlib.Data.List.Basic

/-!
# BlobDumper — blobs saved to files

`BlobDumper.java` asks a database for rows with an id, a name and a blob, and saves each blob to a
file whose name is made of the id and the name.  Texts are lists of characters.  Which file a name
denotes is for the file system to say: `a//b` and `a/b` are one file, and names that differ in case
may be.  `Files.copy` may throw for any row, and then the run ends.  Decoding a blob is not
modelled, but that it writes no file.
-/

namespace Etude
namespace DumpBlob

open Base Base.Read

universe u

/-- A row of the result set; `none` is `NULL`. -/
structure Row where
  blobId : Option Int32
  blobName : Option Str
  blobContent : Option (List UInt8)
  deriving DecidableEq

/-- `rs.getInt("blob_id")` -/
def Row.id (rs : Row) : Int32 :=
  rs.blobId.getD 0

/-- The name as `%s` formats it. -/
def Row.name (rs : Row) : Str :=
  rs.blobName.getD ['n', 'u', 'l', 'l']

/-- `String.format("%d-%s.blob", blobId, blobName)` -/
def fileName (blobId : Int32) (blobName : Str) : Str :=
  showInt blobId.toInt ++ '-' :: blobName ++ ['.', 'b', 'l', 'o', 'b']

/-- How `Files.copy` and the `close` behind it end: a failure may leave anything in the file. -/
inductive Copy
  | copied
  | thrown (left : Option (List UInt8))
  deriving DecidableEq

/-- What a copy of `content` leaves in the file. -/
def Copy.leaves (content : List UInt8) : Copy → Option (List UInt8)
  | .copied => some content
  | .thrown left => left

/-- What the files of the file system hold. -/
abbrev Files (κ : Type u) := κ → Option (List UInt8)

section Dump

-- `file` is the file that a name denotes.
variable {κ : Type u} [DecidableEq κ] (file : Str → κ)

/-- `saveBlob`, which ends with or without an exception. -/
def saveBlob (files : Files κ) (rs : Row) (copy : Copy) : Except (Files κ) (Files κ) :=
  match rs.blobContent with
  | none => .ok files
  | some content =>
    let files := Function.update files (file (fileName rs.id rs.name)) (copy.leaves content)
    match copy with
    | .copied => .ok files
    | .thrown _ => .error files

/-- The loop of `dump`, over the rows with the copies that they meet: the files it leaves, and the
rows from the one on that throws. -/
def dump (decode : Bool) (files : Files κ) : List (Row × Copy) → Files κ × List (Row × Copy)
  | [] => (files, [])
  | (rs, copy) :: rows =>
    -- `decodeBlob` in place of `saveBlob`.
    if decode then dump decode files rows
    else
      match saveBlob file files rs copy with
      | .ok files => dump decode files rows
      | .error files => (files, (rs, copy) :: rows)

end Dump

/-! ## File names -/

theorem showInt_injective : Function.Injective showInt := by
  intro m n h
  have hread : ∀ n, readInt (fun _ => false) (showInt n) = some n :=
    readInt_showInt rfl fun _ _ => rfl
  have hsome := hread m
  rw [h, hread n] at hsome
  exact (Option.some.inj hsome).symm

theorem minus_notMem_showNat (n : ℕ) : '-' ∉ showNat n := by
  intro h
  rcases List.mem_map.mp h with ⟨d, hd, heq⟩
  exact (digitChar_ne d (padDigits_lt hd)).1 heq

/-- Only the first character of a number can be a minus sign. -/
theorem exists_showInt_cons (n : ℤ) : ∃ c cs, showInt n = c :: cs ∧ '-' ∉ cs := by
  have hdigits := minus_notMem_showNat n.natAbs
  unfold showInt
  split_ifs
  · exact ⟨'-', showNat n.natAbs, rfl, hdigits⟩
  · rcases exists_showNat_cons n.natAbs with ⟨d, -, cs, hcs⟩
    rw [hcs] at hdigits
    exact ⟨Nat.digitChar d, cs, hcs, fun h => hdigits (List.mem_cons_of_mem _ h)⟩

/-- So the number ends at the next minus sign, whatever the name holds. -/
theorem showInt_append_inj {m n : ℤ} {s t : Str}
    (h : showInt m ++ '-' :: s = showInt n ++ '-' :: t) : m = n ∧ s = t := by
  rcases exists_showInt_cons m with ⟨c, cs, hm, hcs⟩
  rcases exists_showInt_cons n with ⟨d, ds, hn, hds⟩
  -- Behind the first character, what stands in front of a minus sign can be read off.
  have hspan : ∀ {front rest : Str}, '-' ∉ front →
      (front ++ '-' :: rest).takeWhile (· ≠ '-') = front := by
    intro front rest hfront
    have hall : ∀ c ∈ front, decide (c ≠ '-') = true := by
      intro c hc
      exact decide_eq_true fun heq => hfront (heq ▸ hc)
    rw [List.takeWhile_append_of_pos hall]
    simp
  rw [hm, hn, List.cons_append, List.cons_append, List.cons.injEq] at h
  rcases h with ⟨rfl, hrest⟩
  have hfront := congrArg (List.takeWhile (· ≠ '-')) hrest
  rw [hspan hcs, hspan hds] at hfront
  subst hfront
  exact ⟨showInt_injective (hm.trans hn.symm), (List.cons.inj (List.append_cancel_left hrest)).2⟩

theorem fileName_inj {i j : Int32} {s t : Str} (h : fileName i s = fileName j t) :
    i = j ∧ s = t := by
  rcases showInt_append_inj (List.append_cancel_right h) with ⟨hid, hname⟩
  exact ⟨Int32.toInt_inj.mp hid, hname⟩

/-! ## Saving is writing to a table -/

/-- The file of a row. -/
def Row.fileName (rs : Row) : Str :=
  DumpBlob.fileName rs.id rs.name

section Saved

variable {κ : Type u} (file : Str → κ)

/-- The file that a row writes, and what is in it then. -/
def writes (p : Row × Copy) : Option (κ × Option (List UInt8)) :=
  p.1.blobContent.map fun content => (file p.1.fileName, p.2.leaves content)

/-- The copy of the row throws. -/
def Throws (p : Row × Copy) : Prop :=
  p.1.blobContent.isSome ∧ p.2 ≠ .copied

variable [DecidableEq κ]

/-- With or without an exception, a row writes its own file. -/
theorem saveBlob_cases (files : Files κ) (rs : Row) (copy : Copy) :
    (¬ Throws (rs, copy) ∧
        saveBlob file files rs copy = .ok (Table.write (writes file) files (rs, copy))) ∨
      (Throws (rs, copy) ∧
        saveBlob file files rs copy = .error (Table.write (writes file) files (rs, copy))) := by
  unfold saveBlob Table.write writes Throws
  cases rs.blobContent with
  | none =>
      exact Or.inl ⟨by simp, rfl⟩
  | some content =>
      cases copy with
      | copied => exact Or.inl ⟨by simp, rfl⟩
      | thrown left => exact Or.inr ⟨by simp, rfl⟩

/-- Without `decode=false` no file is written. -/
theorem dump_decode (files : Files κ) (rows : List (Row × Copy)) :
    dump file true files rows = (files, []) := by
  induction rows with
  | nil =>
      rfl
  | cons p rows ih =>
      simpa [dump] using ih

/-- The rows up to the first that throws write their files, and that one too. -/
theorem dump_eq (files : Files κ) (rows : List (Row × Copy)) :
    ∃ done, rows = done ++ (dump file false files rows).2 ∧
      (∀ p ∈ done, ¬ Throws p) ∧ (∀ p ∈ (dump file false files rows).2.head?, Throws p) ∧
      (dump file false files rows).1 =
        Table.after (writes file) files (done ++ (dump file false files rows).2.take 1) := by
  induction rows generalizing files with
  | nil =>
      exact ⟨[], rfl, by simp, by simp [dump], rfl⟩
  | cons p rows ih =>
      rcases p with ⟨rs, copy⟩
      rcases saveBlob_cases file files rs copy with ⟨hnot, hsave⟩ | ⟨hthrows, hsave⟩
      · have hdump : dump file false files ((rs, copy) :: rows) =
            dump file false (Table.write (writes file) files (rs, copy)) rows := by
          simp [dump, hsave]
        rcases ih (Table.write (writes file) files (rs, copy)) with
          ⟨done, hrows, hdone, hhead, hfiles⟩
        rw [hdump]
        refine ⟨(rs, copy) :: done, ?_, ?_, hhead, hfiles⟩
        · rw [List.cons_append, ← hrows]
        · rw [List.forall_mem_cons]
          exact ⟨hnot, hdone⟩
      · -- The exception leaves the loop at this row.
        have hdump : dump file false files ((rs, copy) :: rows) =
            (Table.write (writes file) files (rs, copy), (rs, copy) :: rows) := by
          simp [dump, hsave]
        rw [hdump]
        refine ⟨[], rfl, by simp, ?_, rfl⟩
        intro q hq
        cases hq
        exact hthrows

/-- The rows are handled in order up to the first whose copy throws.  A file holds what the last of
them left that wrote it, and the files that none of them wrote stay as they are.  Only rows with the
same id and name have the same file name. -/
theorem dump_saves (files : Files κ) (rows : List (Row × Copy)) :
    ∃ done, rows = done ++ (dump file false files rows).2 ∧
      (∀ p ∈ done, ¬ Throws p) ∧ (∀ p ∈ (dump file false files rows).2.head?, Throws p) ∧
      (∀ before p after content,
        done ++ (dump file false files rows).2.take 1 = before ++ p :: after →
        p.1.blobContent = some content →
        (∀ q ∈ after, q.1.blobContent.isSome → file q.1.fileName ≠ file p.1.fileName) →
        (dump file false files rows).1 (file p.1.fileName) = p.2.leaves content) ∧
      (∀ k, (∀ p ∈ done ++ (dump file false files rows).2.take 1, p.1.blobContent.isSome →
          file p.1.fileName ≠ k) →
        (dump file false files rows).1 k = files k) ∧
      ∀ rs rs' : Row, rs.fileName = rs'.fileName ↔ rs.id = rs'.id ∧ rs.name = rs'.name := by
  rcases dump_eq file files rows with ⟨done, hrows, hdone, hhead, hfiles⟩
  refine ⟨done, hrows, hdone, hhead, ?_, ?_, ?_⟩
  · intro before p after content hsplit hcontent hlast
    rw [hfiles]
    refine Table.after_of_lastWrites files ⟨before, p, after, hsplit, ?_, ?_⟩
    · rw [writes, hcontent]
      rfl
    · intro q hq a hwrite
      rcases Option.map_eq_some_iff.mp hwrite with ⟨other, hother, heq⟩
      exact hlast q hq (by rw [hother]; rfl) (Prod.mk.inj heq).1
  · intro k hk
    rw [hfiles]
    refine Table.after_of_untouched files ?_
    intro p hp a hwrite
    rcases Option.map_eq_some_iff.mp hwrite with ⟨content, hcontent, heq⟩
    exact hk p hp (by rw [hcontent]; rfl) (Prod.mk.inj heq).1
  · intro rs rs'
    constructor
    · exact fileName_inj
    · rintro ⟨hid, hname⟩
      rw [Row.fileName, hid, hname]
      rfl

end Saved

end DumpBlob
end Etude
