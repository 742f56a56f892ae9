import Etude.TcpLog.Server

/-!
# Invariant — who holds the lock, and for what

What the calls of `handle` about a connection have to write follows from what has been read of its
input (`Client.blocks`), and a connection is in the middle of a line only while its thread holds the
lock.
-/

namespace Etude
namespace TcpLog

open Base

/-- The accepting thread looks after the connection. -/
def Phase.OfAcceptor : Phase → Prop
  | .accepted | .announcing | .announced => True
  | _ => False

/-! ## The calls of `handle` about a connection -/

/-- The blocks written about the connection `k`, in order. -/
def blocksOf (entered : List (Thread × Str)) (k : ℕ) : List Str :=
  entered.filterMap fun p => if p.1.client = k then some p.2 else none

theorem blocksOf_concat (entered : List (Thread × Str)) (thread : Thread) (block : Str) (k : ℕ) :
    blocksOf (entered ++ [(thread, block)]) k =
      blocksOf entered k ++ if thread.client = k then [block] else [] := by
  simp only [blocksOf, List.filterMap_append]
  split_ifs with h <;> simp [h]

namespace Client

/-- The lines of `read` that are complete. -/
def whole (c : Client) : List Str :=
  (completeLines '\n' c.read).map List.dropLast

/-- The messages that `handle` has been called for, without a line that goes on. -/
def said (c : Client) : List Str :=
  match c.phase with
  | .accepted => []
  | .announcing | .announced => [c.connected]
  | .reading => c.connected :: lines c.read
  | .inLine => c.connected :: c.whole
  | .finished => c.connected :: lines c.read ++ [c.disconnected]

/-- What `plainHandler` has of a line that goes on. -/
def begun (c : Client) : List Str :=
  if c.phase = .inLine then [tag c.clientaddr ++ remainder '\n' c.read] else []

/-- What is to be written in the calls of `handle` so far. -/
def blocks (c : Client) : List Str :=
  c.said.map (plainHandler c.clientaddr) ++ c.begun

/-- All messages about a connection whose input is what has come in. -/
def report (c : Client) : List Str :=
  c.connected :: lines c.received ++ [c.disconnected]

/-- A call of `handle` for a line is over only when the line is. -/
def InStep (c : Client) : Prop :=
  match c.phase with
  | .accepted | .announcing | .announced => c.read = []
  | .reading => remainder '\n' c.read = [] ∨ c.ended = true ∧ c.buffer = []
  | .inLine => remainder '\n' c.read ≠ []
  | .finished => c.ended = true ∧ c.buffer = []

variable {c d : Client} {block : Str} {ch : Char}

/-- Nothing is read before the thread for the connection runs. -/
theorem InStep.read_eq_nil (h : c.InStep) (hof : c.phase.OfAcceptor) : c.read = [] := by
  unfold InStep at h
  cases hphase : c.phase with
  | accepted | announcing | announced =>
      rw [hphase] at h
      exact h
  | reading | inLine | finished =>
      rw [hphase] at hof
      exact False.elim hof

theorem lines_read (h : remainder '\n' c.read = []) : lines c.read = c.whole := by
  rw [lines_eq_completeLines, h, lines, List.append_nil, whole]

/-- One character more goes to the line that was not complete. -/
theorem blocks_take (c : Client) (ch : Char) (rest : Str) :
    (c.take ch rest).blocks = (c.connected :: c.whole).map (plainHandler c.clientaddr) ++
      [tag c.clientaddr ++ remainder '\n' c.read ++ [ch]] := by
  by_cases hch : ch = '\n'
  · subst hch
    simp [blocks, said, begun, take, lines_concat_newline, whole, connected, plainHandler]
  · have hwhole : completeLines '\n' (c.read ++ [ch]) = completeLines '\n' c.read := by
      rw [completeLines, cut_concat_of_ne hch]
    have hrest : remainder '\n' (c.read ++ [ch]) = remainder '\n' c.read ++ [ch] :=
      congrArg Prod.snd (cut_concat_of_ne hch c.read)
    simp [blocks, said, begun, take, hch, hwhole, hrest, whole, connected]

theorem inStep_take (c : Client) (ch : Char) (rest : Str) : (c.take ch rest).InStep := by
  by_cases hch : ch = '\n'
  · subst hch
    have hrest : remainder '\n' (c.read ++ ['\n']) = [] :=
      congrArg Prod.snd (cut_concat_stop c.read)
    simp [InStep, take, hrest]
  · have hrest : remainder '\n' (c.read ++ [ch]) = remainder '\n' c.read ++ [ch] :=
      congrArg Prod.snd (cut_concat_of_ne hch c.read)
    simp [InStep, take, hch, hrest]

/-- A call of `handle` adds its block. -/
theorem blocks_next (h : c.InStep) (hnext : c.next = some (block, d)) :
    d.blocks = c.blocks ++ [block] ∧ d.InStep := by
  unfold next at hnext
  unfold InStep at h
  cases hc : c.phase with
  | announcing | announced | inLine | finished =>
      rw [hc] at hnext
      cases hnext
  | accepted =>
      rw [hc] at hnext h
      cases hnext
      exact ⟨by simp [blocks, said, begun, hc, connected], h⟩
  | reading =>
      rw [hc] at hnext h
      simp only at hnext h
      cases hbuffer : c.buffer with
      | cons ch rest =>
          rw [hbuffer] at hnext h
          cases hnext
          -- There is more input, so the lines before are complete.
          have hremainder : remainder '\n' c.read = [] := by simpa using h
          refine ⟨?_, inStep_take c ch rest⟩
          rw [blocks_take, hremainder, List.append_nil]
          simp [blocks, said, begun, hc, lines_read hremainder]
      | nil =>
          rw [hbuffer] at hnext
          simp only at hnext
          split_ifs at hnext with hended
          cases hnext
          exact ⟨by simp [blocks, said, begun, hc, connected, disconnected], ⟨hended, rfl⟩⟩

/-- Which thread looks after the connection does not change when it takes the lock. -/
theorem next_phase (hnext : c.next = some (block, d)) :
    (d.phase = .announcing ↔ c.phase = .accepted) ∧ (d.phase.OfAcceptor ↔ c.phase.OfAcceptor) := by
  unfold next at hnext
  cases hc : c.phase with
  | announcing | announced | inLine | finished =>
      rw [hc] at hnext
      cases hnext
  | accepted =>
      rw [hc] at hnext
      cases hnext
      exact ⟨⟨fun _ => rfl, fun _ => rfl⟩, Iff.rfl⟩
  | reading =>
      rw [hc] at hnext
      simp only at hnext
      split at hnext
      · cases hnext
        unfold take
        dsimp only
        split_ifs <;> simp [Phase.OfAcceptor]
      · split_ifs at hnext
        cases hnext
        simp [Phase.OfAcceptor]

/-- One character more for the last block. -/
theorem blocks_more {before : List Str} (hmore : c.more = some (ch, d)) (h : c.InStep)
    (hblocks : c.blocks = before ++ [block]) :
    d.blocks = before ++ [block ++ [ch]] ∧ d.InStep := by
  unfold more at hmore
  unfold InStep at h
  cases hc : c.phase with
  | accepted | announcing | announced | reading | finished =>
      rw [hc] at hmore
      cases hmore
  | inLine =>
      rw [hc] at hmore h
      simp only at hmore h
      -- The last block is the line that goes on.
      have hlast : (c.connected :: c.whole).map (plainHandler c.clientaddr) ++
          [tag c.clientaddr ++ remainder '\n' c.read] = before ++ [block] := by
        rw [← hblocks]
        simp [blocks, said, begun, hc]
      rcases List.append_inj' hlast rfl with ⟨rfl, hblock⟩
      cases hblock
      cases hbuffer : c.buffer with
      | cons ch' rest =>
          rw [hbuffer] at hmore
          cases hmore
          exact ⟨blocks_take c ch rest, inStep_take c ch rest⟩
      | nil =>
          rw [hbuffer] at hmore
          simp only at hmore
          split_ifs at hmore with hended
          cases hmore
          -- The input ends in the line, which is the last of `lines messages`.
          have hlines : lines c.read = c.whole ++ [remainder '\n' c.read] := by
            rw [lines_eq_completeLines, lines_of_notMem (notMem_remainder _) h]
            rfl
          refine ⟨?_, Or.inr ⟨hended, rfl⟩⟩
          simp [blocks, said, begun, hlines, connected, plainHandler]

theorem more_phase (hmore : c.more = some (ch, d)) :
    c.phase = .inLine ∧ (d.phase = .reading ∨ d.phase = .inLine) := by
  unfold more at hmore
  split at hmore
  · rename_i hc
    refine ⟨hc, ?_⟩
    split at hmore
    · cases hmore
      unfold take
      dsimp only
      split_ifs <;> simp
    · split_ifs at hmore
      cases hmore
      exact Or.inl rfl
  · cases hmore

end Client

/-! ## The invariant -/

/-- What holds of the connection `k`. -/
structure Good (lock : Guarded Thread Char) (accepting : Option ℕ) (k : ℕ) (c : Client) : Prop where
  inStep : c.InStep
  blocks_eq : blocksOf lock.entered k = c.blocks
  announcing_iff : c.phase = .announcing ↔ ∃ rest, lock.holder = some (.procRequests k, rest)
  accepting_iff : c.phase.OfAcceptor ↔ accepting = some k
  holder_of_inLine : c.phase = .inLine → ∃ rest, lock.holder = some (.procMessages k, rest)

structure Inv (s : State) : Prop where
  consistent : s.lock.Consistent
  client_lt : ∀ p ∈ s.lock.entered, p.1.client < s.clients.length
  accepting_lt : ∀ k, s.accepting = some k → k < s.clients.length
  good : ∀ k c, s.clients[k]? = some c → Good s.lock s.accepting k c

theorem inv_init : Inv init := by
  refine
    { consistent := Guarded.consistent_init
      client_lt := fun p hp => by cases hp
      accepting_lt := fun k hk => by cases hk
      good := fun k c hc => by simp [init] at hc }

section Keeps

variable {s : State} {k : ℕ} {c d : Client} {lock : Guarded Thread Char} {accepting : Option ℕ}

/-- The clients after an update. -/
theorem getElem?_update {e : Client} {j : ℕ} (hk : s.clients[k]? = some c)
    (hj : (s.clients.set k d)[j]? = some e) :
    (j = k ∧ e = d) ∨ (j ≠ k ∧ s.clients[j]? = some e) := by
  have hlt : k < s.clients.length := (List.getElem?_eq_some_iff.mp hk).1
  rw [List.getElem?_set] at hj
  split_ifs at hj with hkj
  · cases hj
    exact Or.inl ⟨hkj.symm, rfl⟩
  · exact Or.inr ⟨Ne.symm hkj, hj⟩

/-- A step of one connection, with what the lock and the accepting thread do. -/
theorem Inv.update (hs : Inv s) (hk : s.clients[k]? = some c) (hconsistent : lock.Consistent)
    (hclient_lt : ∀ p ∈ lock.entered, p.1.client < s.clients.length)
    (haccepting_lt : ∀ j, accepting = some j → j < s.clients.length)
    (hgood : Good s.lock s.accepting k c → Good lock accepting k d)
    (hother : ∀ j e, j ≠ k → Good s.lock s.accepting j e → Good lock accepting j e) :
    Inv { clients := s.clients.set k d, accepting := accepting, lock := lock } := by
  refine
    { consistent := hconsistent
      client_lt := fun p hp => by simpa using hclient_lt p hp
      accepting_lt := fun j hj => by simpa using haccepting_lt j hj
      good := fun j e hj => ?_ }
  rcases getElem?_update hk hj with ⟨rfl, rfl⟩ | ⟨hne, hj⟩
  · exact hgood (hs.good j c hk)
  · exact hother j e hne (hs.good j e hj)

/-- More input, or its end, for a connection. -/
theorem Inv.input (hs : Inv s) (hk : s.clients[k]? = some c) (hphase : d.phase = c.phase)
    (hblocks : d.blocks = c.blocks) (hinStep : c.InStep → d.InStep) : Inv (s.update k d) := by
  refine hs.update hk hs.consistent hs.client_lt hs.accepting_lt ?_ (fun _ _ _ he => he)
  intro hc
  exact
    { inStep := hinStep hc.inStep
      blocks_eq := hblocks ▸ hc.blocks_eq
      announcing_iff := hphase ▸ hc.announcing_iff
      accepting_iff := hphase ▸ hc.accepting_iff
      holder_of_inLine := hphase ▸ hc.holder_of_inLine }

theorem inStep_receive (hended : c.ended = false) (cs : Str) (h : c.InStep) :
    ({ c with buffer := c.buffer ++ cs } : Client).InStep := by
  unfold Client.InStep at h ⊢
  cases hc : c.phase with
  | accepted | announcing | announced | inLine =>
      rw [hc] at h
      exact h
  | reading =>
      rw [hc] at h
      exact Or.inl (h.resolve_right fun hboth => by simp [hended] at hboth)
  | finished =>
      rw [hc] at h
      exact absurd h.1 (by simp [hended])

theorem inStep_endOfInput (h : c.InStep) : ({ c with ended := true } : Client).InStep := by
  unfold Client.InStep at h ⊢
  cases hc : c.phase with
  | accepted | announcing | announced | inLine =>
      rw [hc] at h
      exact h
  | reading =>
      rw [hc] at h
      exact h.imp_right fun hboth => ⟨rfl, hboth.2⟩
  | finished =>
      rw [hc] at h
      exact ⟨rfl, h.2⟩

theorem Inv.accept (hs : Inv s) (hidle : s.accepting = none) (clientaddr : Address) :
    Inv
      { s with
        clients := s.clients ++ [⟨clientaddr, [], [], false, .accepted⟩]
        accepting := some s.clients.length } := by
  refine
    { consistent := hs.consistent
      client_lt := fun p hp => by simpa using Nat.lt_succ_of_lt (hs.client_lt p hp)
      accepting_lt := fun j hj => by cases hj; simp
      good := fun j e hj => ?_ }
  rcases Nat.lt_trichotomy j s.clients.length with hlt | rfl | hgt
  · -- The accepting thread was in `accept`, so an older connection is not its business.
    rw [List.getElem?_append_left hlt] at hj
    have he := hs.good j e hj
    refine { he with accepting_iff := ?_ }
    rw [he.accepting_iff, hidle]
    constructor
    · intro h
      cases h
    · intro h
      cases h
      exact absurd hlt (Nat.lt_irrefl _)
  · rw [List.getElem?_concat_length] at hj
    cases hj
    -- Nothing has been said about the new connection, and nobody holds the lock for it.
    have hnone : ∀ p ∈ s.lock.entered, p.1.client ≠ s.clients.length :=
      fun p hp => Nat.ne_of_lt (hs.client_lt p hp)
    refine
      { inStep := rfl
        blocks_eq := ?_
        announcing_iff := ?_
        accepting_iff := ⟨fun _ => rfl, fun _ => trivial⟩
        holder_of_inLine := fun h => by cases h }
    · refine List.filterMap_eq_nil_iff.mpr ?_
      intro p hp
      rw [if_neg (hnone p hp)]
    · constructor
      · intro h
        cases h
      · rintro ⟨rest, hholder⟩
        rcases hs.consistent.mem_of_holder hholder with ⟨block, hmem⟩
        exact absurd rfl (hnone _ hmem)
  · rw [List.getElem?_append_right (Nat.le_of_lt hgt)] at hj
    have hpos : j - s.clients.length ≠ 0 := by omega
    rcases Nat.exists_eq_succ_of_ne_zero hpos with ⟨m, hm⟩
    rw [hm] at hj
    cases hj

theorem Inv.enter {block : Str} (hs : Inv s) (hk : s.clients[k]? = some c)
    (hnext : c.next = some (block, d)) (henter : s.lock.enter (threadOf c k) block = some lock) :
    Inv { s.update k d with lock := lock } := by
  have hconsistent := hs.consistent.enter henter
  rcases Guarded.enter_eq_some henter with ⟨hfree, rfl⟩
  have hclient : (threadOf c k).client = k := by
    unfold threadOf
    split_ifs <;> rfl
  refine hs.update hk hconsistent ?_ hs.accepting_lt ?_ ?_
  · intro p hp
    rw [List.mem_append, List.mem_singleton] at hp
    rcases hp with hp | rfl
    · exact hs.client_lt p hp
    · rw [hclient]
      exact (List.getElem?_eq_some_iff.mp hk).1
  · intro hc
    rcases Client.blocks_next hc.inStep hnext with ⟨hblocks, hinStep⟩
    rcases Client.next_phase hnext with ⟨hannouncing, hofAcceptor⟩
    refine
      { inStep := hinStep
        blocks_eq := ?_
        announcing_iff := ?_
        accepting_iff := hofAcceptor.trans hc.accepting_iff
        holder_of_inLine := ?_ }
    · rw [blocksOf_concat, hclient, if_pos rfl, hc.blocks_eq, hblocks]
    · rw [hannouncing]
      unfold threadOf
      split_ifs with h <;> simp [h]
    · -- The accepting thread is in no line of a client.
      intro hinLine
      have haccepted : c.phase ≠ .accepted := by
        intro h
        have hof := hofAcceptor.mpr (by rw [h]; trivial)
        rw [hinLine] at hof
        exact hof
      exact ⟨block, by rw [threadOf, if_neg haccepted]⟩
  · intro j e hne he
    have hother : (threadOf c k).client ≠ j := by
      rw [hclient]
      exact Ne.symm hne
    refine
      { inStep := he.inStep
        blocks_eq := ?_
        announcing_iff := ?_
        accepting_iff := he.accepting_iff
        holder_of_inLine := ?_ }
    · rw [blocksOf_concat, if_neg hother, List.append_nil]
      exact he.blocks_eq
    · -- The lock was free, so this connection was not being announced, and it is not now.
      rw [he.announcing_iff, hfree]
      constructor
      · rintro ⟨rest, h⟩
        cases h
      · rintro ⟨rest, h⟩
        have hthread : threadOf c k = .procRequests j := congrArg Prod.fst (Option.some.inj h)
        exact absurd (by rw [hthread]; rfl) hother
    · intro hinLine
      rcases he.holder_of_inLine hinLine with ⟨rest, h⟩
      rw [hfree] at h
      cases h

theorem Inv.read {ch : Char} (hs : Inv s) (hholder : s.lock.holder = some (.procMessages k, []))
    (hk : s.clients[k]? = some c) (hmore : c.more = some (ch, d))
    (hextend : s.lock.extend [ch] = some lock) : Inv { s.update k d with lock := lock } := by
  have hconsistent := hs.consistent.extend hextend
  rcases Guarded.extend_eq_some hextend with ⟨thread, hholder', rfl⟩
  rw [hholder] at hholder'
  cases hholder'
  rcases hs.consistent.of_holder hholder with ⟨before, block, hentered, -⟩
  rw [List.append_nil] at hentered
  rcases Client.more_phase hmore with ⟨hinLine, hphase⟩
  have hmodify : s.lock.entered.modifyLast (fun p => (p.1, p.2 ++ [ch])) =
      before ++ [(.procMessages k, block ++ [ch])] := by
    rw [hentered, List.modifyLast_concat]
  rw [hmodify] at hconsistent ⊢
  refine hs.update hk hconsistent ?_ hs.accepting_lt ?_ ?_
  · intro p hp
    have hlt := hs.client_lt
    rw [hentered] at hlt
    rw [List.mem_append, List.mem_singleton] at hp
    rcases hp with hp | rfl
    · exact hlt p (List.mem_append_left _ hp)
    · exact hlt (.procMessages k, block) (by simp)
  · intro hc
    have hblocks := hc.blocks_eq
    rw [hentered, blocksOf_concat, Thread.client, if_pos rfl] at hblocks
    rcases Client.blocks_more hmore hc.inStep hblocks.symm with ⟨hd, hinStep⟩
    refine
      { inStep := hinStep
        blocks_eq := ?_
        announcing_iff := ?_
        accepting_iff := ?_
        holder_of_inLine := fun _ => ⟨[ch], rfl⟩ }
    · rw [blocksOf_concat, Thread.client, if_pos rfl, hd]
    · constructor
      · intro h
        rcases hphase with hphase | hphase <;> cases hphase.symm.trans h
      · rintro ⟨rest, h⟩
        cases h
    · refine Iff.trans ?_ hc.accepting_iff
      rw [hinLine]
      rcases hphase with hphase | hphase
      · rw [hphase]
        exact Iff.rfl
      · rw [hphase]
  · intro j e hne he
    refine
      { inStep := he.inStep
        blocks_eq := ?_
        announcing_iff := ?_
        accepting_iff := he.accepting_iff
        holder_of_inLine := ?_ }
    · rw [← he.blocks_eq, hentered, blocksOf_concat, blocksOf_concat, Thread.client,
        if_neg (Ne.symm hne), if_neg (Ne.symm hne)]
    · rw [he.announcing_iff, hholder]
      simp
    · intro h
      rcases he.holder_of_inLine h with ⟨rest, h⟩
      rw [hholder] at h
      cases h
      exact absurd rfl hne

theorem Inv.write (hs : Inv s) (hwrite : s.lock.write = some lock) :
    Inv { s with lock := lock } := by
  have hconsistent := hs.consistent.write hwrite
  rcases Guarded.write_eq_some hwrite with ⟨thread, a, rest, hholder, rfl⟩
  refine
    { consistent := hconsistent
      client_lt := hs.client_lt
      accepting_lt := hs.accepting_lt
      good := fun j e hj => ?_ }
  have he := hs.good j e hj
  -- The same thread holds the lock, with one character less to write.
  have hsame : ∀ thread', (∃ rest', s.lock.holder = some (thread', rest')) ↔
      ∃ rest', some (thread, rest) = some (thread', rest') := by
    intro thread'
    rw [hholder]
    simp
  exact
    { inStep := he.inStep
      blocks_eq := he.blocks_eq
      announcing_iff := he.announcing_iff.trans (hsame _)
      accepting_iff := he.accepting_iff
      holder_of_inLine := fun h => (hsame _).mp (he.holder_of_inLine h) }

/-- The lock is given back by a thread that does not announce `j` and is not in a line of it. -/
theorem Good.leave {thread : Thread} {j : ℕ} {e : Client} (he : Good s.lock s.accepting j e)
    (hholder : s.lock.holder = some (thread, [])) (hannouncing : thread ≠ .procRequests j)
    (hinLine : e.phase ≠ .inLine) : Good { s.lock with holder := none } s.accepting j e := by
  refine
    { inStep := he.inStep
      blocks_eq := he.blocks_eq
      announcing_iff := ?_
      accepting_iff := he.accepting_iff
      holder_of_inLine := fun h => absurd h hinLine }
  rw [he.announcing_iff, hholder]
  constructor
  · rintro ⟨rest, h⟩
    cases h
    exact absurd rfl hannouncing
  · rintro ⟨rest, h⟩
    cases h

theorem Inv.leaveRequests (hs : Inv s) (hleave : s.lock.leave = some (.procRequests k, lock))
    (hk : s.clients[k]? = some c) :
    Inv { s.update k { c with phase := .announced } with lock := lock } := by
  have hconsistent := hs.consistent.leave hleave
  rcases Guarded.leave_eq_some hleave with ⟨hholder, rfl⟩
  refine hs.update hk hconsistent hs.client_lt hs.accepting_lt ?_ ?_
  · intro hc
    have hphase : c.phase = .announcing := hc.announcing_iff.mpr ⟨[], hholder⟩
    refine
      { inStep := hc.inStep.read_eq_nil (by rw [hphase]; trivial)
        blocks_eq := hc.blocks_eq.trans ?_
        announcing_iff := ⟨fun h => (by cases h), fun ⟨rest, h⟩ => (by cases h)⟩
        accepting_iff := ?_
        holder_of_inLine := fun h => by cases h }
    · simp [Client.blocks, Client.said, Client.begun, hphase, Client.connected]
    · refine Iff.trans ?_ hc.accepting_iff
      rw [hphase]
      exact Iff.rfl
  · intro j e hne he
    refine he.leave hholder (fun h => hne (by cases h; rfl)) ?_
    intro hinLine
    rcases he.holder_of_inLine hinLine with ⟨rest, h⟩
    rw [hholder] at h
    cases h

theorem Inv.leaveMessages (hs : Inv s) (hleave : s.lock.leave = some (.procMessages k, lock))
    (hk : s.clients[k]? = some c) (hphase : c.phase ≠ .inLine) : Inv { s with lock := lock } := by
  have hconsistent := hs.consistent.leave hleave
  rcases Guarded.leave_eq_some hleave with ⟨hholder, rfl⟩
  refine
    { consistent := hconsistent
      client_lt := hs.client_lt
      accepting_lt := hs.accepting_lt
      good := fun j e hj => ?_ }
  have he := hs.good j e hj
  refine he.leave hholder (fun h => by cases h) ?_
  intro hinLine
  -- Only the connection of the thread that holds the lock could be in a line.
  rcases he.holder_of_inLine hinLine with ⟨rest, h⟩
  rw [hholder] at h
  cases h
  rw [hk] at hj
  cases hj
  exact hphase hinLine

theorem Inv.fork (hs : Inv s) (haccepting : s.accepting = some k) (hk : s.clients[k]? = some c)
    (hphase : c.phase = .announced) :
    Inv { s.update k { c with phase := .reading } with accepting := none } := by
  refine hs.update hk hs.consistent hs.client_lt (fun j hj => by cases hj) ?_ ?_
  · intro hc
    have hread : c.read = [] := hc.inStep.read_eq_nil (by rw [hphase]; trivial)
    refine
      { inStep := Or.inl (by rw [hread]; rfl)
        blocks_eq := hc.blocks_eq.trans ?_
        announcing_iff := ?_
        accepting_iff := ⟨fun h => (by cases h), fun h => (by cases h)⟩
        holder_of_inLine := fun h => by cases h }
    · simp [Client.blocks, Client.said, Client.begun, hphase, hread, lines, Client.connected]
    · refine Iff.trans ?_ hc.announcing_iff
      rw [hphase]
      exact ⟨fun h => (by cases h), fun h => (by cases h)⟩
  · intro j e hne he
    refine { he with accepting_iff := ?_ }
    rw [he.accepting_iff, haccepting]
    exact ⟨fun h => absurd (Option.some.inj h).symm hne, fun h => (by cases h)⟩

end Keeps

theorem inv_step {s t : State} {e : Event} (hs : Inv s) (h : step s e = some t) : Inv t := by
  cases step_cases h with
  | accept clientaddr hidle =>
      exact hs.accept hidle clientaddr
  | receive cs hk hended =>
      exact hs.input hk rfl rfl (inStep_receive hended cs)
  | endOfInput hk =>
      exact hs.input hk rfl rfl inStep_endOfInput
  | enter hk hnext henter =>
      exact hs.enter hk hnext henter
  | read hholder hk hmore hextend =>
      exact hs.read hholder hk hmore hextend
  | write hwrite =>
      exact hs.write hwrite
  | leaveRequests hleave hk =>
      exact hs.leaveRequests hleave hk
  | leaveMessages hleave hk hphase =>
      exact hs.leaveMessages hleave hk hphase
  | fork haccepting hk hphase =>
      exact hs.fork haccepting hk hphase

/-- The lock is held for a connection that has been accepted. -/
theorem Inv.exists_of_holder {s : State} (hs : Inv s) {thread : Thread} {rest : Str}
    (hholder : s.lock.holder = some (thread, rest)) : ∃ c, s.clients[thread.client]? = some c := by
  rcases hs.consistent.mem_of_holder hholder with ⟨block, hmem⟩
  exact ⟨_, List.getElem?_eq_getElem (hs.client_lt _ hmem)⟩

theorem inv_run {s : State} {es : List Event} (h : run step init es = some s) : Inv s :=
  run_keeps (fun _ _ _ => inv_step) inv_init h

end TcpLog
end Etude
