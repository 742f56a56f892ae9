import Mathlib.Data.List.Flatten
import Etude.TcpLog.Invariant

/-!
# Unfinished — a line that does not end

`handle` holds the lock until the line ends that it prints.  As long as a client has begun a line
and sends no newline, its thread keeps the lock, nothing else is printed, and the accepting thread
gets no further than the announcement of one more connection.
-/

namespace Etude
namespace TcpLog

open Base

/-- What may end a line of the connection `k`. -/
def Event.EndsLine (k : ℕ) : Event → Prop
  | .receive j cs => j = k ∧ '\n' ∈ cs
  | .endOfInput j => j = k
  | _ => False

/-- What the event brings in over the connection `k`. -/
def Event.sentBy (k : ℕ) : Event → Str
  | .receive j cs => if j = k then cs else []
  | _ => []

/-! ## The accepting thread -/

section Room

variable {s : State} {k : ℕ} {c : Client}

theorem getElem?_set_self {d : Client} (hk : s.clients[k]? = some c) :
    (s.clients.set k d)[k]? = some d :=
  List.getElem?_set_self (List.getElem?_eq_some_iff.mp hk).1

/-- How many connections can be accepted before the next announcement. -/
def State.room (s : State) : ℕ :=
  match s.accepting with
  | none => 1
  | some j => if (s.clients[j]?.map Client.phase) = some .announced then 1 else 0

theorem room_le_one (s : State) : s.room ≤ 1 := by
  unfold State.room
  split
  · exact Nat.le_refl _
  · split_ifs <;> omega

/-- Only `accept` and `fork` matter for a thread that is before `forkIO` or is not. -/
theorem room_update {b d : Client} {j : ℕ} (hj : s.clients[j]? = some b)
    (hphase : d.phase = .announced ↔ b.phase = .announced) : (s.update j d).room = s.room := by
  unfold State.room State.update
  cases s.accepting with
  | none =>
      rfl
  | some i =>
      by_cases hij : j = i
      · subst hij
        simp [getElem?_set_self hj, hj, hphase]
      · simp [List.getElem?_set_ne hij]

theorem length_add_room_update {b d : Client} {j : ℕ} (hj : s.clients[j]? = some b)
    (hphase : d.phase = .announced ↔ b.phase = .announced) :
    (s.update j d).clients.length + (s.update j d).room = s.clients.length + s.room := by
  rw [room_update hj hphase, State.update, List.length_set]

end Room

/-! ## A line that goes on -/

/-- The lock is held for a line of the connection `k`, which goes on; `rest` is still to be
written. -/
structure Held (s : State) (k : ℕ) (c : Client) (rest : Str) : Prop where
  client_eq : s.clients[k]? = some c
  inLine : c.phase = .inLine
  goes_on : c.ended = false
  newline_notMem : '\n' ∉ c.buffer
  holder_eq : s.lock.holder = some (.procMessages k, rest)

section Held

variable {s t : State} {k : ℕ} {c : Client} {rest : Str}

/-- A step of another connection changes nothing about the line. -/
theorem Held.of_other (h : Held s k c rest) (hclient : t.clients[k]? = s.clients[k]?)
    (hlock : t.lock = s.lock) : Held t k c rest :=
  { h with
    client_eq := hclient.trans h.client_eq
    holder_eq := hlock ▸ h.holder_eq }

theorem Held.update_other {j : ℕ} (h : Held s k c rest) (hne : j ≠ k) (d : Client) :
    Held (s.update j d) k c rest :=
  h.of_other (List.getElem?_set_ne hne) rfl

/-- From `s` to `t` the line is kept: what is written is taken from the front of what is to come,
behind which `sent` comes in, and a connection that is accepted takes the room there is. -/
def Kept (s t : State) (k : ℕ) (c : Client) (rest sent : Str) : Prop :=
  ∃ d rest' more, Held t k d rest' ∧ t.lock.output = s.lock.output ++ more ∧
    more ++ (rest' ++ d.buffer) = rest ++ c.buffer ++ sent ∧
    t.clients.length + t.room ≤ s.clients.length + s.room

theorem Kept.trans {u : State} {sent sent' : Str} (h : Kept s u k c rest sent)
    (hnext : ∀ d rest', Held u k d rest' → Kept u t k d rest' sent') :
    Kept s t k c rest (sent ++ sent') := by
  rcases h with ⟨d, rest', first, hheld, hfirst, hahead, hroom⟩
  rcases hnext d rest' hheld with ⟨d', rest'', others, hheld', hothers, hahead', hroom'⟩
  refine ⟨d', rest'', first ++ others, hheld', ?_, ?_, Nat.le_trans hroom' hroom⟩
  · rw [hothers, hfirst, List.append_assoc]
  · calc
      (first ++ others) ++ (rest'' ++ d'.buffer) =
          first ++ (others ++ (rest'' ++ d'.buffer)) := List.append_assoc ..
      _ = first ++ (rest' ++ d.buffer) ++ sent' := by
        rw [hahead', ← List.append_assoc]
      _ = rest ++ c.buffer ++ (sent ++ sent') := by
        rw [hahead, List.append_assoc]

/-- Nothing has happened to the line. -/
theorem Held.kept (h : Held t k c rest) (hlock : t.lock = s.lock)
    (hroom : t.clients.length + t.room ≤ s.clients.length + s.room) : Kept s t k c rest [] :=
  ⟨c, rest, [], h, by rw [hlock, List.append_nil], (List.append_nil _).symm, hroom⟩

theorem Held.receive {b : Client} {j : ℕ} {cs : Str} (h : Held s k c rest)
    (he : ¬ (Event.receive j cs).EndsLine k) (hj : s.clients[j]? = some b) :
    Kept s (s.update j { b with buffer := b.buffer ++ cs }) k c rest
      ((Event.receive j cs).sentBy k) := by
  have hroom := Nat.le_of_eq
    (length_add_room_update (d := { b with buffer := b.buffer ++ cs }) hj Iff.rfl)
  rw [Event.sentBy]
  split_ifs with hjk
  · subst hjk
    rw [h.client_eq] at hj
    cases hj
    have hcs : '\n' ∉ cs := fun hmem => he ⟨rfl, hmem⟩
    refine ⟨{ c with buffer := c.buffer ++ cs }, rest, [], ?_, ?_, ?_, hroom⟩
    · exact
        { client_eq := getElem?_set_self h.client_eq
          inLine := h.inLine
          goes_on := h.goes_on
          newline_notMem := by simp [h.newline_notMem, hcs]
          holder_eq := h.holder_eq }
    · exact (List.append_nil _).symm
    · simp
  · exact (h.update_other hjk _).kept rfl hroom

/-- The next character has come in, and it is not the newline. -/
theorem Held.more_eq {d : Client} {ch : Char} (h : Held s k c rest)
    (hmore : c.more = some (ch, d)) : ∃ buffer, c.buffer = ch :: buffer ∧ d = c.take ch buffer ∧
      ch ≠ '\n' ∧ '\n' ∉ buffer := by
  simp only [Client.more, h.inLine] at hmore
  cases hbuffer : c.buffer with
  | nil =>
      simp [hbuffer, h.goes_on] at hmore
  | cons a buffer =>
      simp only [hbuffer] at hmore
      cases hmore
      have hmem := h.newline_notMem
      rw [hbuffer, List.mem_cons, not_or] at hmem
      exact ⟨buffer, rfl, rfl, Ne.symm hmem.1, hmem.2⟩

theorem Held.read {d : Client} {ch : Char} {lock : Guarded Thread Char} (h : Held s k c rest)
    (hmore : c.more = some (ch, d)) (hextend : s.lock.extend [ch] = some lock) :
    Kept s { s.update k d with lock := lock } k c rest [] := by
  rcases Guarded.extend_eq_some hextend with ⟨thread, hholder, rfl⟩
  rw [h.holder_eq] at hholder
  cases hholder
  rcases h.more_eq hmore with ⟨buffer, hbuffer, rfl, hch, hnone⟩
  have hinLine : (c.take ch buffer).phase = .inLine := if_neg hch
  have hphase : (c.take ch buffer).phase = .announced ↔ c.phase = .announced := by
    rw [hinLine, h.inLine]
  refine ⟨c.take ch buffer, [ch], [], ?_, (List.append_nil _).symm, ?_, ?_⟩
  · exact
      { client_eq := getElem?_set_self h.client_eq
        inLine := hinLine
        goes_on := h.goes_on
        newline_notMem := hnone
        holder_eq := rfl }
  · simp [hbuffer, Client.take]
  · exact Nat.le_of_eq (length_add_room_update h.client_eq hphase)

theorem Held.write {lock : Guarded Thread Char} (h : Held s k c rest)
    (hwrite : s.lock.write = some lock) : Kept s { s with lock := lock } k c rest [] := by
  rcases Guarded.write_eq_some hwrite with ⟨thread, a, rest', hholder, rfl⟩
  rw [h.holder_eq] at hholder
  cases hholder
  exact ⟨c, rest', [a], { h with holder_eq := rfl }, rfl, (List.append_nil _).symm, Nat.le_refl _⟩

theorem Held.fork {b : Client} {j : ℕ} (h : Held s k c rest) (haccepting : s.accepting = some j)
    (hj : s.clients[j]? = some b) (hphase : b.phase = .announced) :
    Kept s { s.update j { b with phase := .reading } with accepting := none } k c rest [] := by
  have hjk : j ≠ k := by
    rintro rfl
    rw [h.client_eq] at hj
    cases hj
    cases h.inLine.symm.trans hphase
  refine Held.kept (h.of_other (List.getElem?_set_ne hjk) rfl) rfl ?_
  simp [State.room, State.update, haccepting, hj, hphase]

/-- Every step keeps the line. -/
theorem Held.step {e : Event} (h : Held s k c rest) (he : ¬ e.EndsLine k)
    (hstep : TcpLog.step s e = some t) : Kept s t k c rest (e.sentBy k) := by
  have hlt : k < s.clients.length := (List.getElem?_eq_some_iff.mp h.client_eq).1
  cases step_cases hstep with
  | accept clientaddr hidle =>
      refine Held.kept (h.of_other (List.getElem?_append_left hlt) rfl) rfl ?_
      -- The new connection has to be announced first.
      simp [State.room, hidle]
  | receive cs hj hended =>
      exact h.receive he hj
  | endOfInput hj =>
      exact (h.update_other he _).kept rfl (Nat.le_of_eq (length_add_room_update hj Iff.rfl))
  | enter hj hnext henter =>
      have hfree := (Guarded.enter_eq_some henter).1
      rw [h.holder_eq] at hfree
      cases hfree
  | read hholder hj hmore hextend =>
      rw [h.holder_eq] at hholder
      cases hholder
      rw [h.client_eq] at hj
      cases hj
      exact h.read hmore hextend
  | write hwrite =>
      exact h.write hwrite
  | leaveRequests hleave hj =>
      have hholder := (Guarded.leave_eq_some hleave).1
      rw [h.holder_eq] at hholder
      cases hholder
  | leaveMessages hleave hj hphase =>
      have hholder := (Guarded.leave_eq_some hleave).1
      rw [h.holder_eq] at hholder
      cases hholder
      rw [h.client_eq] at hj
      cases hj
      exact absurd h.inLine hphase
  | fork haccepting hj hphase =>
      exact h.fork haccepting hj hphase

/-- So do the steps of a run. -/
theorem Held.run {fs : List Event} (h : Held s k c rest) (hfs : ∀ e ∈ fs, ¬ e.EndsLine k)
    (ht : Base.run TcpLog.step s fs = some t) :
    Kept s t k c rest (fs.flatMap (Event.sentBy k)) := by
  induction fs generalizing s c rest with
  | nil =>
      cases ht
      exact h.kept rfl (Nat.le_refl _)
  | cons e fs ih =>
      rw [List.forall_mem_cons] at hfs
      rcases Option.bind_eq_some_iff.mp ht with ⟨u, hu, hut⟩
      rw [List.flatMap_cons]
      exact (h.step hfs.1 hu).trans fun _ _ hheld => ih hheld hfs.2 hut

/-- What is still to be written of a line that goes on has no newline. -/
theorem Held.newline_notMem_rest (h : Held s k c rest) (hs : Inv s) : '\n' ∉ rest := by
  rcases hs.consistent.of_holder h.holder_eq with ⟨before, written, hentered, -⟩
  have hblocks := (hs.good k c h.client_eq).blocks_eq
  rw [hentered, blocksOf_concat, Thread.client, if_pos rfl, Client.blocks, Client.begun,
    if_pos h.inLine] at hblocks
  have hblock : written ++ rest = tag c.clientaddr ++ remainder '\n' c.read := by
    simpa using (List.append_inj' hblocks rfl).2
  -- Neither the tag nor the beginning of the line has one.
  have hnone : '\n' ∉ written ++ rest := by
    rw [hblock, List.mem_append, not_or]
    exact ⟨newline_notMem_tag _, notMem_remainder _⟩
  exact fun hmem => hnone (List.mem_append_right _ hmem)

end Held

theorem newline_notMem_sentBy {k : ℕ} {fs : List Event} (hfs : ∀ e ∈ fs, ¬ e.EndsLine k) :
    '\n' ∉ fs.flatMap (Event.sentBy k) := by
  intro hmem
  rcases List.mem_flatMap.mp hmem with ⟨e, he, hmem⟩
  cases e with
  | receive j cs =>
      rw [Event.sentBy] at hmem
      split_ifs at hmem with hjk
      · exact hfs _ he ⟨hjk, hmem⟩
      · cases hmem
  | accept _ | endOfInput _ | enter _ | read | write | leave | fork =>
      cases hmem

/-- A client that has begun a line silences the others until it ends it: whatever happens, only its
own characters are printed, its thread keeps the lock, and at most one more connection is
accepted. -/
theorem unfinished_line_silences {es fs : List Event} {s t : State} {k : ℕ} {c : Client}
    (hs : run step init es = some s) (hk : s.clients[k]? = some c) (hphase : c.phase = .inLine)
    (hended : c.ended = false) (hbuffer : '\n' ∉ c.buffer)
    (hfs : ∀ e ∈ fs, ¬ e.EndsLine k) (ht : run step s fs = some t) :
    ∃ rest, s.lock.holder = some (.procMessages k, rest) ∧
      (∃ more, t.lock.output = s.lock.output ++ more ∧ '\n' ∉ more ∧
        more <+: rest ++ c.buffer ++ fs.flatMap (Event.sentBy k)) ∧
      (∃ rest', t.lock.holder = some (.procMessages k, rest')) ∧
      t.clients.length ≤ s.clients.length + 1 := by
  have hinv := inv_run hs
  rcases (hinv.good k c hk).holder_of_inLine hphase with ⟨rest, hholder⟩
  have hheld : Held s k c rest :=
    { client_eq := hk
      inLine := hphase
      goes_on := hended
      newline_notMem := hbuffer
      holder_eq := hholder }
  rcases hheld.run hfs ht with ⟨d, rest', more, hheld', hout, hahead, hlength⟩
  have hprefix : more <+: rest ++ c.buffer ++ fs.flatMap (Event.sentBy k) :=
    ⟨rest' ++ d.buffer, hahead⟩
  refine ⟨rest, hholder, ⟨more, hout, ?_, hprefix⟩, ⟨rest', hheld'.holder_eq⟩, ?_⟩
  · intro hmem
    have hall := hprefix.subset hmem
    rw [List.mem_append, List.mem_append] at hall
    rcases hall with (hrest | hcome) | hsent
    · exact hheld.newline_notMem_rest hinv hrest
    · exact hbuffer hcome
    · exact newline_notMem_sentBy hfs hsent
  · have hroom := room_le_one s
    omega

/-- A client that has sent one character. -/
def oneCharacter : List Event :=
  [.accept ⟨['c'], by decide⟩, .enter 0] ++ List.replicate 28 .write ++
    [.leave, .fork, .receive 0 ['x'], .enter 0]

theorem unfinished_line_silences_oneCharacter :
    ∃ s t c, run step init oneCharacter = some s ∧ s.clients[0]? = some c ∧
      run step s [.accept ⟨['d'], by decide⟩, .receive 0 ['y'], .write] = some t ∧
      ∃ rest, s.lock.holder = some (.procMessages 0, rest) ∧
        (∃ more, t.lock.output = s.lock.output ++ more ∧ '\n' ∉ more ∧
          more <+: rest ++ c.buffer ++
            [.accept ⟨['d'], by decide⟩, .receive 0 ['y'], .write].flatMap (Event.sentBy 0)) ∧
        (∃ rest', t.lock.holder = some (.procMessages 0, rest')) ∧
        t.clients.length ≤ s.clients.length + 1 :=
  ⟨_, _, _, rfl, rfl, rfl,
    @unfinished_line_silences oneCharacter [.accept ⟨['d'], by decide⟩, .receive 0 ['y'], .write]
      _ _ 0 _ rfl rfl rfl rfl (by simp [Client.take]) (by simp [Event.EndsLine]) rfl⟩

end TcpLog
end Etude
