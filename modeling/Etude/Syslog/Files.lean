import Etude.Syslog.Rotation

/-!
# Files — where each message goes

The handle in the `ServerState` stays that of the day on which the server was created, and the
handle that `openLogFile` returns is used for one message only.  So the first message of a day goes
to a file of its own, and all others to the file of the first day, as long as that is open.
-/

namespace Etude
namespace Syslog

open Base

/-! ## What a run has taken in -/

def Event.received : Event → List (List UInt8)
  | .recvFrom msg => [msg]
  | _ => []

def Event.observed : Event → List Date
  | .today d => [d]
  | _ => []

/-- The packet in hand. -/
def Main.inHand : Main → List (List UInt8)
  | .rotating msg | .forking msg _ | .opening msg _ | .reading msg _ | .writing msg _ _ => [msg]
  | _ => []

/-- What `today` returned for it. -/
def Main.dayInHand : Main → List Date
  | .forking _ d | .opening _ d | .reading _ d | .writing _ d _ => [d]
  | _ => []

theorem Main.length_inHand_le (main : Main) : main.inHand.length ≤ 1 := by
  cases main <;> simp [inHand]

/-! ## Days and files -/

/-- The day whose file takes a message of the day `d`, after a message of the day `last`. -/
def fileDay (first last d : Date) : Date :=
  if d = last then first else d

/-- The days whose files take the messages of the days `ds`. -/
def fileDays (first : Date) : Date → List Date → List Date
  | _, [] => []
  | last, d :: ds => fileDay first last d :: fileDays first d ds

theorem fileDays_concat (first last : Date) (ds : List Date) (d : Date) :
    fileDays first last (ds ++ [d]) =
      fileDays first last ds ++ [fileDay first (ds.getLastD last) d] := by
  induction ds generalizing last with
  | nil =>
      rfl
  | cons c ds ih =>
      rw [List.cons_append, fileDays, ih c, fileDays, List.getLastD_cons, List.cons_append]

theorem fileDays_mono {first last : Date} {ds es : List Date} (h : ds <+: es) :
    fileDays first last ds <+: fileDays first last es := by
  induction ds generalizing last es with
  | nil =>
      exact List.nil_prefix
  | cons d ds ih =>
      cases es with
      | nil => cases List.prefix_nil.mp h
      | cons e es =>
          rcases List.cons_prefix_cons.mp h with ⟨rfl, hds⟩
          exact List.cons_prefix_cons.mpr ⟨rfl, ih hds⟩

/-! ## The invariant -/

/-- Which handle the main thread is about to use, if `paths` are those of the handles and `last` is
the day of the message before. -/
def Main.Headed (path : Date → FilePath) (paths : List FilePath) (first last date : Date) :
    Main → Prop
  | .forking _ d | .opening _ d => d = date ∧ d ≠ last
  | .reading _ d => d = date ∧ d = last
  | .writing _ d h => d = date ∧ paths[h]? = some (path (fileDay first last d))
  | .stopped => True
  | _ => date = last

/-- `ms` and `ds` are what the run has received and what `today` has returned. -/
structure Filed (path : Date → FilePath) (first : Date) (ms : List (List UInt8)) (ds : List Date)
    (s : State) : Prop where
  path_eq : logFilePath s.logDir s.baseFile = path
  handle : s.handle = 0
  firstHandle : (s.handles.map OpenFile.path)[0]? = some (path first)
  closers : ∀ h, Closer.closing h ∈ s.closers → h = 0
  /-- The forked threads close the handle of the first day and no other. -/
  laterOpen : ∀ i f, s.handles[i + 1]? = some f → f.isOpen = true
  main : s.main.Headed path (s.handles.map OpenFile.path) first
    ((s.attempts.map Attempt.day).getLastD first) s.date
  paths : s.attempts.map (fun a => a.file.path) =
    (fileDays first first (s.attempts.map Attempt.day)).map path
  /-- What is lost is the message in hand when `openLogFile` fails. -/
  account : ∃ lost lostDays,
    ms = s.attempts.map Attempt.msg ++ s.main.inHand ++ lost ∧
    ds = s.attempts.map Attempt.day ++ s.main.dayInHand ++ lostDays ∧ lost.length ≤ 1 ∧
    (s.main ≠ .stopped → lost = [] ∧ lostDays = [])
  attemptsWritten : ∀ a ∈ s.attempts.dropLast, a.written = true
  allWritten : s.main ≠ .stopped → ∀ a ∈ s.attempts, a.written = true
  closedFirst : ∀ a ∈ s.attempts, a.file.isOpen = false →
    a.written = false ∧ a.file.path = path first

theorem createServer_filed (logDir baseFile : List Char) (first : Date) :
    Filed (logFilePath logDir baseFile) first [] [] (createServer logDir baseFile first) :=
  { path_eq := rfl
    handle := rfl
    firstHandle := rfl
    closers := fun _ h => by cases h
    laterOpen := fun _ _ h => by cases h
    main := rfl
    paths := rfl
    account := ⟨[], [], rfl, rfl, Nat.zero_le _, fun _ => ⟨rfl, rfl⟩⟩
    attemptsWritten := fun _ h => by cases h
    allWritten := fun _ _ h => by cases h
    closedFirst := fun _ h => by cases h }

/-! ## Steps -/

section Steps

variable {path : Date → FilePath} {first : Date} {ms : List (List UInt8)} {ds : List Date}
  {s t : State}

/-- A server that has not stopped has lost nothing. -/
theorem Filed.taken (h : Filed path first ms ds s) {main : Main} (hmain : s.main = main)
    (hrunning : main ≠ .stopped) :
    ms = s.attempts.map Attempt.msg ++ main.inHand ∧
      ds = s.attempts.map Attempt.day ++ main.dayInHand := by
  subst hmain
  rcases h.account with ⟨lost, lostDays, hms, hds, -, hnone⟩
  rcases hnone hrunning with ⟨rfl, rfl⟩
  rw [List.append_nil] at hms hds
  exact ⟨hms, hds⟩

/-- The main thread moves, and nothing is written. -/
theorem Filed.goto (h : Filed path first ms ds s) {before : Main} (hmain : s.main = before)
    (hrunning : before ≠ .stopped) (date : Date) (main : Main) {ms' : List (List UInt8)}
    {ds' : List Date}
    (hheaded : main.Headed path (s.handles.map OpenFile.path) first
      ((s.attempts.map Attempt.day).getLastD first) date)
    (hms : ms' = s.attempts.map Attempt.msg ++ main.inHand)
    (hds : ds' = s.attempts.map Attempt.day ++ main.dayInHand) :
    Filed path first ms' ds' { s with date := date, main := main } :=
  { path_eq := h.path_eq
    handle := h.handle
    firstHandle := h.firstHandle
    closers := h.closers
    laterOpen := h.laterOpen
    main := hheaded
    paths := h.paths
    account := ⟨[], [], by rw [hms, List.append_nil], by rw [hds, List.append_nil],
      Nat.zero_le _, fun _ => ⟨rfl, rfl⟩⟩
    attemptsWritten := h.attemptsWritten
    allWritten := fun _ => h.allWritten (hmain ▸ hrunning)
    closedFirst := h.closedFirst }

theorem Filed.fork (h : Filed path first ms ds s) :
    Filed path first ms ds { s with closers := s.closers ++ [.started] } :=
  { h with
    closers := by
      intro i hi
      rcases List.mem_append.mp hi with hold | hnew
      · exact h.closers i hold
      · cases List.mem_singleton.mp hnew }

/-- A new file: the later handles stay, and they are open. -/
theorem Filed.opened (h : Filed path first ms ds s) {msg : List UInt8} {d : Date}
    (hmain : s.main = .opening msg d) :
    Filed path first ms ds
      { s with
        handles := s.handles ++ [⟨path d, true⟩]
        main := .writing msg d s.handles.length } := by
  have hheaded := h.main
  have htaken := h.taken hmain (by simp)
  rw [hmain] at hheaded
  rcases hheaded with ⟨hdate, hlast⟩
  have hfirst := h.firstHandle
  have hlt : 0 < (s.handles.map OpenFile.path).length := (List.getElem?_eq_some_iff.mp hfirst).1
  exact
    { path_eq := h.path_eq
      handle := h.handle
      firstHandle := by
        rw [List.map_append, List.getElem?_append_left hlt]
        exact hfirst
      closers := h.closers
      laterOpen := by
        intro i f hf
        -- An older handle, or the new one.
        rcases Nat.lt_or_ge (i + 1) s.handles.length with hi | hi
        · rw [List.getElem?_append_left hi] at hf
          exact h.laterOpen i f hf
        · rw [List.getElem?_append_right hi] at hf
          rw [List.mem_singleton.mp (List.mem_of_getElem? hf)]
      main := by
        refine ⟨hdate, ?_⟩
        -- The day is a new one, so the message goes to its own file.
        rw [fileDay, if_neg hlast, List.map_append,
          List.getElem?_append_right (by rw [List.length_map])]
        simp
      paths := h.paths
      account := ⟨[], [], by rw [htaken.1, List.append_nil]; rfl,
        by rw [htaken.2, List.append_nil]; rfl, Nat.zero_le _, fun _ => ⟨rfl, rfl⟩⟩
      attemptsWritten := h.attemptsWritten
      allWritten := fun _ => h.allWritten (by simp [hmain])
      closedFirst := h.closedFirst }

/-- `openLogFile` fails, and the message in hand is lost. -/
theorem Filed.refused (h : Filed path first ms ds s) {msg : List UInt8} {d : Date}
    (hmain : s.main = .opening msg d) : Filed path first ms ds { s with main := .stopped } := by
  have htaken := h.taken hmain (by simp)
  exact
    { h with
      main := trivial
      account := ⟨[msg], [d], by rw [htaken.1]; simp [Main.inHand],
        by rw [htaken.2]; simp [Main.dayInHand], Nat.le_refl _, fun hne => absurd rfl hne⟩
      allWritten := fun hne => absurd rfl hne }

theorem Filed.openLogFile (h : Filed path first ms ds s) {msg : List UInt8} {d : Date}
    (hmain : s.main = .opening msg d) (permitted : Bool) :
    Filed path first ms ds (openLogFile s msg d permitted) := by
  simp only [Syslog.openLogFile, h.path_eq]
  split
  · exact h.opened hmain
  · exact h.refused hmain

/-- A closed handle is that of the first day. -/
theorem Filed.path_of_closed (h : Filed path first ms ds s) {i : ℕ} {f : OpenFile}
    (hf : s.handles[i]? = some f) (hclosed : f.isOpen = false) : f.path = path first := by
  cases i with
  | zero =>
      have hfirst := h.firstHandle
      rw [List.getElem?_map, hf] at hfirst
      exact Option.some.inj hfirst
  | succ i =>
      rw [h.laterOpen i f hf] at hclosed
      cases hclosed

theorem Filed.hPutStrLn (h : Filed path first ms ds s) {msg : List UInt8} {d : Date} {i : ℕ}
    {f : OpenFile} (hmain : s.main = .writing msg d i) (hf : s.handles[i]? = some f)
    (permitted : Bool) : Filed path first ms ds (hPutStrLn s msg d permitted f) := by
  have hheaded := h.main
  have hrunning : s.main ≠ .stopped := by
    rw [hmain]
    simp
  have htaken := h.taken hmain (by simp)
  rw [hmain] at hheaded
  rcases hheaded with ⟨rfl, hpath⟩
  rw [List.getElem?_map, hf] at hpath
  have hfile : f.path = path _ := Option.some.inj hpath
  unfold Syslog.hPutStrLn
  generalize hwritten : (permitted && f.isOpen) = written
  -- Whether the write succeeds or not, the message is not in hand any more.
  have hhand : (if written then Main.checking else Main.stopped).inHand = [] ∧
      (if written then Main.checking else Main.stopped).dayInHand = [] := by
    split <;> exact ⟨rfl, rfl⟩
  exact
    { path_eq := h.path_eq
      handle := h.handle
      firstHandle := h.firstHandle
      closers := h.closers
      laterOpen := h.laterOpen
      main := by
        have hlast : ((s.attempts ++ [(⟨msg, s.date, f, written⟩ : Attempt)]).map
            Attempt.day).getLastD first = s.date := by
          simp
        rw [hlast]
        cases written with
        | true => rfl
        | false => trivial
      paths := by
        rw [List.map_append, h.paths, List.map_append, List.map_singleton, List.map_singleton,
          fileDays_concat, List.map_append, List.map_singleton, hfile]
      account := by
        refine ⟨[], [], ?_, ?_, Nat.zero_le _, fun _ => ⟨rfl, rfl⟩⟩
        · rw [hhand.1, htaken.1]
          simp [Main.inHand]
        · rw [hhand.2, htaken.2]
          simp [Main.dayInHand]
      attemptsWritten := by
        rw [List.dropLast_concat]
        exact h.allWritten hrunning
      allWritten := by
        intro hne a ha
        -- A write that fails throws, and the server stops.
        have hdone : written = true := by
          by_contra hfailed
          exact hne (if_neg hfailed)
        rcases List.mem_append.mp ha with hold | hnew
        · exact h.allWritten hrunning a hold
        · rw [List.mem_singleton.mp hnew]
          exact hdone
      closedFirst := by
        intro a ha hclosed
        rcases List.mem_append.mp ha with hold | hnew
        · exact h.closedFirst a hold hclosed
        · rw [List.mem_singleton.mp hnew] at hclosed ⊢
          have hshut : f.isOpen = false := hclosed
          rw [hshut, Bool.and_false] at hwritten
          exact ⟨hwritten.symm, h.path_of_closed hf hshut⟩ }

/-- A forked thread reads the handle, which is that of the first day. -/
theorem Filed.closerReads (h : Filed path first ms ds s) (i : ℕ) :
    Filed path first ms ds { s with closers := s.closers.set i (.closing s.handle) } :=
  { h with
    closers := by
      intro j hj
      rcases List.mem_or_eq_of_mem_set hj with hold | hnew
      · exact h.closers j hold
      · cases hnew
        exact h.handle }

theorem map_path_modify (handles : List OpenFile) (i : ℕ) :
    (handles.modify i hClose).map OpenFile.path = handles.map OpenFile.path := by
  apply List.ext_getElem?
  intro j
  rw [List.getElem?_map, List.getElem?_modify, List.getElem?_map]
  cases handles[j]? with
  | none => rfl
  | some f =>
      by_cases hij : i = j
      · simp [hij, hClose]
      · simp [hij]

/-- It closes that handle and no other. -/
theorem Filed.closerCloses (h : Filed path first ms ds s) {i j : ℕ}
    (hi : s.closers[i]? = some (.closing j)) :
    Filed path first ms ds
      { s with
        closers := s.closers.set i .finished
        handles := s.handles.modify j hClose } := by
  have hj : j = 0 := h.closers j (List.mem_of_getElem? hi)
  subst hj
  exact
    { path_eq := h.path_eq
      handle := h.handle
      firstHandle := by
        rw [map_path_modify]
        exact h.firstHandle
      closers := by
        intro k hk
        rcases List.mem_or_eq_of_mem_set hk with hold | hnew
        · exact h.closers k hold
        · cases hnew
      laterOpen := by
        intro k f hf
        have hsame : (s.handles.modify 0 hClose)[k + 1]? = s.handles[k + 1]? :=
          List.getElem?_modify_ne _ _ (Nat.succ_ne_zero k).symm
        exact h.laterOpen k f (hsame.symm.trans hf)
      main := by
        rw [map_path_modify]
        exact h.main
      paths := h.paths
      account := h.account
      attemptsWritten := h.attemptsWritten
      allWritten := h.allWritten
      closedFirst := h.closedFirst }

/-! ### Events -/

theorem Filed.recvFrom (h : Filed path first ms ds s) {msg : List UInt8}
    (hstep : step s (.recvFrom msg) = some t) : Filed path first (ms ++ [msg]) ds t := by
  have hheaded := h.main
  simp only [Syslog.step] at hstep
  split at hstep
  next hmain =>
    rw [hmain] at hheaded
    have htaken := h.taken hmain (by simp)
    cases hstep
    refine h.goto hmain (by simp) s.date (.rotating msg) hheaded ?_ htaken.2
    rw [htaken.1]
    simp [Main.inHand]
  · cases hstep

/-- `rotateLogFile` stores a new date, and the handle in the state stays. -/
theorem Filed.today (h : Filed path first ms ds s) {d : Date}
    (hstep : step s (.today d) = some t) : Filed path first ms (ds ++ [d]) t := by
  have hheaded := h.main
  simp only [Syslog.step] at hstep
  split at hstep
  next msg hmain =>
    rw [hmain] at hheaded
    have htaken := h.taken hmain (by simp)
    have hds : ds ++ [d] = s.attempts.map Attempt.day ++ [d] := by
      rw [htaken.2]
      simp [Main.dayInHand]
    split at hstep
    next hnew =>
      cases hstep
      exact h.goto hmain (by simp) d (.forking msg d) ⟨rfl, hheaded ▸ hnew⟩ htaken.1 hds
    next hsame =>
      have hd : d = s.date := not_not.mp hsame
      cases hstep
      exact h.goto hmain (by simp) s.date (.reading msg d) ⟨hd, hd.trans hheaded⟩ htaken.1 hds
  · cases hstep

theorem Filed.forkCloseFile (h : Filed path first ms ds s)
    (hstep : step s .forkCloseFile = some t) : Filed path first ms ds t := by
  have hheaded := h.main
  simp only [Syslog.step] at hstep
  split at hstep
  next msg d hmain =>
    rw [hmain] at hheaded
    have htaken := h.taken hmain (by simp)
    cases hstep
    have hopening := h.goto hmain (by simp) s.date (.opening msg d) hheaded htaken.1 htaken.2
    exact hopening.fork
  · cases hstep

/-- The handle of the state is that of the first day. -/
theorem Filed.readHandle (h : Filed path first ms ds s) (hstep : step s .readHandle = some t) :
    Filed path first ms ds t := by
  have hheaded := h.main
  simp only [Syslog.step] at hstep
  split at hstep
  next msg d hmain =>
    rw [hmain] at hheaded
    have htaken := h.taken hmain (by simp)
    cases hstep
    refine h.goto hmain (by simp) s.date (.writing msg d s.handle) ⟨hheaded.1, ?_⟩ htaken.1
      htaken.2
    rw [fileDay, if_pos hheaded.2, h.handle]
    exact h.firstHandle
  · cases hstep

theorem Filed.readTerminate (h : Filed path first ms ds s) {stop : Bool}
    (hstep : step s (.readTerminate stop) = some t) : Filed path first ms ds t := by
  have hheaded := h.main
  simp only [Syslog.step] at hstep
  split at hstep
  next hmain =>
    rw [hmain] at hheaded
    have htaken := h.taken hmain (by simp)
    cases hstep
    cases stop with
    | true => exact h.goto hmain (by simp) s.date .stopped trivial htaken.1 htaken.2
    | false => exact h.goto hmain (by simp) s.date .receiving hheaded htaken.1 htaken.2
  · cases hstep

theorem Filed.closer (h : Filed path first ms ds s) {i : ℕ}
    (hstep : step s (.closer i) = some t) : Filed path first ms ds t := by
  simp only [Syslog.step] at hstep
  split at hstep
  next hi =>
    cases hstep
    exact h.closerReads i
  next j hi =>
    cases hstep
    exact h.closerCloses hi
  · cases hstep

theorem Filed.step {e : Event} (h : Filed path first ms ds s) (hstep : step s e = some t) :
    Filed path first (ms ++ e.received) (ds ++ e.observed) t := by
  cases e with
  | recvFrom msg =>
      simpa [Event.received, Event.observed] using h.recvFrom hstep
  | today d =>
      simpa [Event.received, Event.observed] using h.today hstep
  | forkCloseFile =>
      simpa [Event.received, Event.observed] using h.forkCloseFile hstep
  | openLogFile permitted =>
      simp only [Syslog.step] at hstep
      split at hstep
      next msg d hmain =>
        cases hstep
        simpa [Event.received, Event.observed] using h.openLogFile hmain permitted
      · cases hstep
  | readHandle =>
      simpa [Event.received, Event.observed] using h.readHandle hstep
  | hPutStrLn permitted =>
      simp only [Syslog.step] at hstep
      split at hstep
      next msg d i hmain =>
        rcases Option.map_eq_some_iff.mp hstep with ⟨f, hf, rfl⟩
        simpa [Event.received, Event.observed] using h.hPutStrLn hmain hf permitted
      · cases hstep
  | readTerminate stop =>
      simpa [Event.received, Event.observed] using h.readTerminate hstep
  | closer i =>
      simpa [Event.received, Event.observed] using h.closer hstep

/-- Attempts are only added, and one that fails is refused by the system or has a closed file. -/
theorem attempts_step {e : Event} (hstep : step s e = some t) :
    t.attempts = s.attempts ∨ ∃ permitted a, e = .hPutStrLn permitted ∧
      t.attempts = s.attempts ++ [a] ∧ a.written = (permitted && a.file.isOpen) := by
  cases e with
  | hPutStrLn permitted =>
      simp only [Syslog.step] at hstep
      split at hstep
      next msg d i hmain =>
        rcases Option.map_eq_some_iff.mp hstep with ⟨f, -, rfl⟩
        exact Or.inr ⟨permitted, _, rfl, rfl, rfl⟩
      · cases hstep
  | openLogFile permitted =>
      simp only [Syslog.step] at hstep
      split at hstep
      · cases hstep
        left
        unfold Syslog.openLogFile
        dsimp only
        split <;> rfl
      · cases hstep
  | recvFrom _ | forkCloseFile | readHandle | readTerminate _ =>
      simp only [Syslog.step] at hstep
      split at hstep <;> cases hstep
      exact Or.inl rfl
  | today d =>
      simp only [Syslog.step] at hstep
      split at hstep
      · split at hstep <;> cases hstep <;> exact Or.inl rfl
      · cases hstep
  | closer i =>
      simp only [Syslog.step] at hstep
      split at hstep <;> cases hstep <;> exact Or.inl rfl

/-! ## Runs -/

theorem filed_run {es : List Event} (h : Filed path first ms ds s) (hrun : run step s es = some t) :
    Filed path first (ms ++ es.flatMap Event.received) (ds ++ es.flatMap Event.observed) t := by
  induction es generalizing ms ds s with
  | nil =>
      cases hrun
      simpa using h
  | cons e es ih =>
      rcases Option.bind_eq_some_iff.mp hrun with ⟨u, hu, hut⟩
      rw [List.flatMap_cons, List.flatMap_cons, ← List.append_assoc, ← List.append_assoc]
      exact ih (h.step hu) hut

/-- If the system refuses no write, only those on closed handles fail. -/
theorem written_run {es : List Event} (hes : .hPutStrLn false ∉ es)
    (h : ∀ a ∈ s.attempts, a.written = a.file.isOpen) (hrun : run step s es = some t) :
    ∀ a ∈ t.attempts, a.written = a.file.isOpen := by
  induction es generalizing s with
  | nil =>
      cases hrun
      exact h
  | cons e es ih =>
      rcases Option.bind_eq_some_iff.mp hrun with ⟨u, hu, hut⟩
      rw [List.mem_cons, not_or] at hes
      refine ih hes.2 ?_ hut
      rcases attempts_step hu with hsame | ⟨permitted, a, rfl, hadded, hwritten⟩
      · rw [hsame]
        exact h
      · have hpermitted : permitted = true := by
          by_contra hrefused
          rw [Bool.eq_false_iff.mpr hrefused] at hes
          exact hes.1 rfl
        rw [hpermitted, Bool.true_and] at hwritten
        rw [hadded, List.forall_mem_append, List.forall_mem_singleton]
        exact ⟨h, hwritten⟩

end Steps

/-- Whatever the threads do: the messages received are written one at a time and in order, the last
one possibly excepted; each goes to the file of its day if `today` returned another day for it than
for the one before, and to the file of the first day if not.  A write fails if the system refuses
it, or on the first handle when that is closed, and the server has stopped then. -/
theorem messages_filed {logDir baseFile : List Char} {first : Date} {es : List Event} {s : State}
    (h : run step (createServer logDir baseFile first) es = some s) :
    s.attempts.map Attempt.msg <+: es.flatMap Event.received ∧
      (es.flatMap Event.received).length ≤ s.attempts.length + 1 ∧
      s.attempts.map (fun a => a.file.path) <+:
        (fileDays first first (es.flatMap Event.observed)).map (logFilePath logDir baseFile) ∧
      (∀ a ∈ s.attempts.dropLast, a.written = true) ∧
      (∀ a ∈ s.attempts, a.written = false → s.main = .stopped) ∧
      (.hPutStrLn false ∉ es → ∀ a ∈ s.attempts, a.written = false → a.file.isOpen = false) ∧
      ∀ a ∈ s.attempts, a.file.isOpen = false →
        a.written = false ∧ a.file.path = logFilePath logDir baseFile first := by
  have hs := filed_run (createServer_filed logDir baseFile first) h
  rw [List.nil_append, List.nil_append] at hs
  rcases hs.account with ⟨lost, lostDays, hms, hds, hlost, hnone⟩
  -- A server that has stopped has no message in hand, and one that runs has lost none.
  have hpending : (s.main.inHand ++ lost).length ≤ 1 := by
    by_cases hstopped : s.main = .stopped
    · rw [hstopped]
      exact hlost
    · rw [(hnone hstopped).1, List.append_nil]
      exact s.main.length_inHand_le
  rw [List.append_assoc] at hms hds
  refine ⟨⟨_, hms.symm⟩, ?_, ?_, hs.attemptsWritten, ?_, ?_, hs.closedFirst⟩
  · rw [hms, List.length_append, List.length_map]
    exact Nat.add_le_add_left hpending _
  · rw [hs.paths]
    exact (fileDays_mono ⟨_, hds.symm⟩).map _
  · intro a ha hfailed
    by_contra hrunning
    rw [hs.allWritten hrunning a ha] at hfailed
    cases hfailed
  · intro hes a ha hfailed
    rw [← written_run hes (fun _ hnone => by cases hnone) h a ha]
    exact hfailed

/-- One message on the first day and three on the next; the forked thread closes the first handle
before the last of them. -/
def secondDay : List Event :=
  [.recvFrom [49], .today ⟨2024, 0, 1⟩, .readHandle, .hPutStrLn true, .readTerminate false,
    .recvFrom [50], .today ⟨2024, 0, 2⟩, .forkCloseFile, .openLogFile true, .hPutStrLn true,
    .readTerminate false, .closer 0,
    .recvFrom [51], .today ⟨2024, 0, 2⟩, .readHandle, .hPutStrLn true, .readTerminate false,
    .closer 0, .recvFrom [52], .today ⟨2024, 0, 2⟩, .readHandle, .hPutStrLn true]

def secondDayFiled : State :=
  let firstFile : FilePath := logFilePath ['.'] ['s'] ⟨2024, 0, 1⟩
  let secondFile : FilePath := logFilePath ['.'] ['s'] ⟨2024, 0, 2⟩
  { logDir := ['.']
    baseFile := ['s']
    date := ⟨2024, 0, 2⟩
    handle := 0
    handles := [⟨firstFile, false⟩, ⟨secondFile, true⟩]
    main := .stopped
    closers := [.finished]
    attempts :=
      [⟨[49], ⟨2024, 0, 1⟩, ⟨firstFile, true⟩, true⟩,
        ⟨[50], ⟨2024, 0, 2⟩, ⟨secondFile, true⟩, true⟩,
        ⟨[51], ⟨2024, 0, 2⟩, ⟨firstFile, true⟩, true⟩,
        ⟨[52], ⟨2024, 0, 2⟩, ⟨firstFile, false⟩, false⟩] }

theorem messages_filed_secondDay :
    run step (createServer ['.'] ['s'] ⟨2024, 0, 1⟩) secondDay = some secondDayFiled ∧
      [[49], [50], [51], [52]] <+: secondDay.flatMap Event.received :=
  have hrun : run step (createServer ['.'] ['s'] ⟨2024, 0, 1⟩) secondDay = some secondDayFiled :=
    rfl
  ⟨hrun, (messages_filed hrun).1⟩

end Syslog
end Etude
