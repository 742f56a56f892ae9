import Etude.TcpLog.Invariant

/-!
# Log — what the line logger prints

However the threads take turns, standard output is a sequence of whole lines, each from one call of
`handle`, up to the one that is being written; and the lines about one connection are its
announcement, what the client has sent, line by line, and its end, as far as they have come.
-/

namespace Etude
namespace TcpLog

open Base

/-! ## The log -/

/-- The lines of a log about the connection `k`. -/
def linesOf (log : List (ℕ × Str)) (k : ℕ) : List Str :=
  log.filterMap fun p => if p.1 = k then some p.2 else none

/-- The lines that calls of `handle` have printed, each with its connection. -/
def logOf (entered : List (Thread × Str)) : List (ℕ × Str) :=
  entered.map fun p => (p.1.client, p.2.dropLast)

/-- All lines about the connection `k`. -/
def State.report (s : State) (k : ℕ) : List Str :=
  match s.clients[k]? with
  | some c => c.report.map fun msg => tag c.clientaddr ++ msg
  | none => []

theorem Client.newline_notMem_of_mem_report {c : Client} {msg : Str} (h : msg ∈ c.report) :
    '\n' ∉ msg := by
  have htag := newline_notMem_tag c.clientaddr
  simp only [report, List.cons_append, List.mem_cons, List.mem_append, List.not_mem_nil,
    or_false] at h
  rcases h with rfl | h | rfl
  · simp [connected, htag]
  · exact newline_notMem_of_mem_lines h
  · simp [disconnected, htag]

theorem newline_notMem_report {s : State} {k : ℕ} {l : Str} (h : l ∈ s.report k) : '\n' ∉ l := by
  unfold State.report at h
  split at h
  · rcases List.mem_map.mp h with ⟨msg, hmsg, rfl⟩
    rw [List.mem_append, not_or]
    exact ⟨newline_notMem_tag _, Client.newline_notMem_of_mem_report hmsg⟩
  · cases h

theorem linesOf_logOf (entered : List (Thread × Str)) (k : ℕ) :
    linesOf (logOf entered) k = (blocksOf entered k).map List.dropLast := by
  simp only [linesOf, logOf, blocksOf, List.filterMap_map, List.map_filterMap]
  refine List.filterMap_congr ?_
  intro p _
  simp only [Function.comp_apply]
  split_ifs <;> rfl

/-- Where each block is a line, the blocks make the text of the lines. -/
theorem flatten_eq_unlines {entered : List (Thread × Str)}
    (h : ∀ p ∈ entered, p.2 = p.2.dropLast ++ ['\n']) :
    (entered.map Prod.snd).flatten = unlines ((logOf entered).map Prod.snd) := by
  unfold unlines logOf
  rw [List.map_map, List.flatMap_map, ← List.flatMap_id, List.flatMap_map]
  exact List.flatMap_congr h

/-- Blocks that are what is written, once the last one is, and those about each connection begin
its report. -/
structure Reports (s : State) (entered : List (Thread × Str)) : Prop where
  output_prefix : s.lock.output <+: (entered.map Prod.snd).flatten
  prefix_output : (entered.dropLast.map Prod.snd).flatten <+: s.lock.output
  blocksOf_prefix : ∀ k, blocksOf entered k <+: (s.report k).map fun l => l ++ ['\n']

section Reports

variable {s : State} {k : ℕ} {c : Client}

theorem Client.map_report (c : Client) :
    (c.report.map fun msg => tag c.clientaddr ++ msg).map (fun l => l ++ ['\n']) =
      c.report.map (plainHandler c.clientaddr) := by
  rw [List.map_map]
  rfl

/-- A connection without a line that goes on. -/
theorem Client.blocks_prefix (h : c.InStep) (hphase : c.phase ≠ .inLine) :
    c.blocks <+: c.report.map (plainHandler c.clientaddr) := by
  have hsaid : c.said <+: c.report := by
    unfold said report received
    unfold InStep at h
    cases hc : c.phase with
    | inLine =>
        exact absurd hc hphase
    | accepted =>
        exact List.nil_prefix
    | announcing | announced =>
        exact ⟨lines (c.read ++ c.buffer) ++ [c.disconnected], rfl⟩
    | reading =>
        rw [hc] at h
        refine List.cons_prefix_cons.mpr ⟨rfl, ?_⟩
        refine List.IsPrefix.trans ?_ (List.prefix_append _ _)
        -- More of the input comes after complete lines only.
        rcases h with hremainder | ⟨-, hbuffer⟩
        · rw [lines_read hremainder, lines_append_eq_completeLines]
          exact List.prefix_append ..
        · rw [hbuffer, List.append_nil]
    | finished =>
        rw [hc] at h
        rw [h.2, List.append_nil]
  unfold blocks begun
  rw [if_neg hphase, List.append_nil]
  exact hsaid.map _

/-- The line that goes on, as far as it has come in. -/
def Client.line (c : Client) : Str :=
  remainder '\n' c.read ++ (lines c.buffer).headD []

theorem Client.said_line_prefix (h : c.InStep) (hphase : c.phase = .inLine) :
    c.said ++ [c.line] <+: c.report := by
  unfold InStep at h
  rw [hphase] at h
  unfold said report received line
  rw [hphase, lines_append_eq_completeLines, lines_append (notMem_remainder _) h]
  exact ⟨(lines c.buffer).tail ++ [c.disconnected], by simp [whole]⟩

theorem State.report_eq (hk : s.clients[k]? = some c) :
    (s.report k).map (fun l => l ++ ['\n']) = c.report.map (plainHandler c.clientaddr) := by
  unfold State.report
  rw [hk]
  exact c.map_report

theorem Inv.blocksOf_eq_nil (hs : Inv s) (hk : s.clients[k]? = none) :
    blocksOf s.lock.entered k = [] := by
  have hle : s.clients.length ≤ k := List.getElem?_eq_none_iff.mp hk
  refine List.filterMap_eq_nil_iff.mpr ?_
  intro p hp
  exact if_neg (Nat.ne_of_lt (Nat.lt_of_lt_of_le (hs.client_lt p hp) hle))

theorem Inv.blocksOf_prefix (hs : Inv s)
    (h : ∀ c, s.clients[k]? = some c → c.phase ≠ .inLine) :
    blocksOf s.lock.entered k <+: (s.report k).map fun l => l ++ ['\n'] := by
  cases hk : s.clients[k]? with
  | some c =>
      have hgood := hs.good k c hk
      rw [hgood.blocks_eq, State.report_eq hk]
      exact Client.blocks_prefix hgood.inStep (h c hk)
  | none =>
      rw [hs.blocksOf_eq_nil hk]
      exact List.nil_prefix

theorem Inv.reports (hs : Inv s)
    (h : ∀ (k : ℕ) (c : Client), s.clients[k]? = some c → c.phase ≠ .inLine) :
    Reports s s.lock.entered := by
  rcases hs.consistent.output_prefix with ⟨hupper, hlower⟩
  refine
    { output_prefix := hupper
      prefix_output := ?_
      blocksOf_prefix := fun k => hs.blocksOf_prefix (h k) }
  rw [List.map_dropLast]
  exact hlower

/-- The call of `handle` for the line that goes on is taken with all of the line. -/
theorem Inv.reports_line (hs : Inv s) (hk : s.clients[k]? = some c) (hphase : c.phase = .inLine) :
    ∃ before, Reports s
      (before ++ [(.procMessages k, plainHandler c.clientaddr c.line)]) := by
  have hgood := hs.good k c hk
  rcases hgood.holder_of_inLine hphase with ⟨rest, hholder⟩
  rcases hs.consistent.of_holder hholder with ⟨before, written, hentered, houtput⟩
  have hblocks := hgood.blocks_eq
  rw [hentered, blocksOf_concat, Thread.client, if_pos rfl, Client.blocks, Client.begun,
    if_pos hphase] at hblocks
  rcases List.append_inj' hblocks rfl with ⟨hbefore, hlast⟩
  refine
    ⟨before,
      { output_prefix := ?_
        prefix_output := ?_
        blocksOf_prefix := fun j => ?_ }⟩
  · -- What has been written of the line is a part of what has been read of it.
    have hwritten : plainHandler c.clientaddr c.line =
        written ++ (rest ++ (lines c.buffer).headD [] ++ ['\n']) := by
      have hone : written ++ rest = tag c.clientaddr ++ remainder '\n' c.read := by
        simpa using hlast
      calc
        plainHandler c.clientaddr c.line =
            (tag c.clientaddr ++ remainder '\n' c.read) ++
              ((lines c.buffer).headD [] ++ ['\n']) := by
          simp [plainHandler, Client.line]
        _ = written ++ (rest ++ (lines c.buffer).headD [] ++ ['\n']) := by
          rw [← hone]
          simp
    refine ⟨rest ++ (lines c.buffer).headD [] ++ ['\n'], ?_⟩
    rw [houtput, List.map_append, List.flatten_append, List.map_singleton, List.flatten_singleton,
      hwritten, List.append_assoc]
  · rw [List.dropLast_concat, houtput]
    exact List.prefix_append ..
  · by_cases hj : k = j
    · subst hj
      rw [blocksOf_concat, Thread.client, if_pos rfl, hbefore, State.report_eq hk]
      have hprefix := (Client.said_line_prefix hgood.inStep hphase).map (plainHandler c.clientaddr)
      rwa [List.map_append, List.map_singleton] at hprefix
    · rw [blocksOf_concat, Thread.client, if_neg hj, List.append_nil]
      -- Only the thread that holds the lock is in a line.
      have hother : ∀ e, s.clients[j]? = some e → e.phase ≠ .inLine := by
        intro e he hinLine
        rcases (hs.good j e he).holder_of_inLine hinLine with ⟨rest', h⟩
        rw [hholder] at h
        cases h
        exact hj rfl
      have hprefix := hs.blocksOf_prefix hother
      rwa [hentered, blocksOf_concat, Thread.client, if_neg hj, List.append_nil] at hprefix

theorem Inv.exists_reports (hs : Inv s) : ∃ entered, Reports s entered := by
  by_cases h : ∃ (k : ℕ) (c : Client), s.clients[k]? = some c ∧ c.phase = .inLine
  · rcases h with ⟨k, c, hk, hphase⟩
    rcases hs.reports_line hk hphase with ⟨before, hreports⟩
    exact ⟨_, hreports⟩
  · exact ⟨_, hs.reports fun k c hk hphase => h ⟨k, c, hk, hphase⟩⟩

/-- Each block is a line. -/
theorem Reports.block_eq {entered : List (Thread × Str)} (h : Reports s entered)
    {p : Thread × Str} (hp : p ∈ entered) :
    p.2 = p.2.dropLast ++ ['\n'] ∧ '\n' ∉ p.2.dropLast := by
  have hmem : p.2 ∈ blocksOf entered p.1.client :=
    List.mem_filterMap.mpr ⟨p, hp, if_pos rfl⟩
  rcases List.mem_map.mp ((h.blocksOf_prefix p.1.client).subset hmem) with ⟨l, hl, heq⟩
  rw [← heq, List.dropLast_concat]
  exact ⟨rfl, newline_notMem_report hl⟩

end Reports

/-- Whatever the threads do, what is printed are whole lines, up to the last one, and the lines
about each connection come in the order of its report, none of them twice and none left out. -/
theorem log_in_order {es : List Event} {s : State} (h : run step init es = some s) :
    ∃ log : List (ℕ × Str),
      s.lock.output <+: unlines (log.map Prod.snd) ∧
        unlines (log.map Prod.snd).dropLast <+: s.lock.output ∧
        (∀ p ∈ log, '\n' ∉ p.2) ∧ ∀ k, linesOf log k <+: s.report k := by
  rcases (inv_run h).exists_reports with ⟨entered, hreports⟩
  have hupper := hreports.output_prefix
  have hlower := hreports.prefix_output
  rw [flatten_eq_unlines fun p hp => (hreports.block_eq hp).1] at hupper
  rw [flatten_eq_unlines fun p hp => (hreports.block_eq (List.mem_of_mem_dropLast hp)).1] at hlower
  refine ⟨logOf entered, hupper, ?_, ?_, ?_⟩
  · rwa [logOf, ← List.map_dropLast, ← List.map_dropLast]
  · intro p hp
    rcases List.mem_map.mp hp with ⟨q, hq, rfl⟩
    exact (hreports.block_eq hq).2
  · intro k
    have hprefix := (hreports.blocksOf_prefix k).map List.dropLast
    rw [linesOf_logOf]
    simpa [Function.comp_def] using hprefix

/-- The accepting thread announces the connection `k`; the address is one character. -/
def announce (k : ℕ) : List Event :=
  .enter k :: List.replicate 28 .write ++ [.leave, .fork]

/-- A connection is announced, then another one, and something comes in over each. -/
def arrivals (cs ds : Str) : List Event :=
  .accept ⟨['a'], by decide⟩ :: announce 0 ++
    [.receive 0 cs, .accept ⟨['b'], by decide⟩, .receive 1 ds] ++ announce 1

/-- The thread of the connection `k` begins with a line: the tag and one character. -/
def beginLine (k : ℕ) : List Event :=
  .enter k :: List.replicate 6 .write

theorem log_in_order_two_clients :
    ∃ s,
      run step init (arrivals ['x', '\n'] ['y', 'z'] ++ beginLine 1 ++ [.read, .write]) = some s ∧
        s.lock.output =
          "[a]: [a]: client connected.\n[b]: [b]: client connected.\n[b]: yz".toList ∧
        ∃ log : List (ℕ × Str),
          s.lock.output <+: unlines (log.map Prod.snd) ∧
            unlines (log.map Prod.snd).dropLast <+: s.lock.output ∧
            (∀ p ∈ log, '\n' ∉ p.2) ∧ ∀ k, linesOf log k <+: s.report k :=
  ⟨_, rfl, rfl,
    @log_in_order (arrivals ['x', '\n'] ['y', 'z'] ++ beginLine 1 ++ [.read, .write]) _ rfl⟩

end TcpLog
end Etude
