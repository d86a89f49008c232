import LedgerIndex.Sql.Remote
import Mathlib

/-!
# A batch is one transaction on the server

A store on a server sends a batch as one script: a beginning, the statements of the batch, a commit.
A server that carries all of them out has been sent the script and nothing else; one that fails a
statement, whichever it is, is sent no further one of them, but the order to roll back
(`commit_refused`).  So others never see a part of a batch: on a server that shows a transaction only
when it has acknowledged the commit, a commit that fails leaves what is shown as it was.
-/

namespace LedgerIndex

/-! ## Servers and what they are sent -/

namespace SqlServer

variable {π : Type} [SqlServer π]

/-- The server after some statements, carried out or not. -/
def after (server : π) (statements : List Statement) : π :=
  statements.foldl (fun server s => (execute s server).2) server

/-- The server carries out some statements one after the other. -/
def Accepts : π → List Statement → Prop
  | _, [] => True
  | server, s :: rest => (∃ rows, (execute s server).1 = .ok rows) ∧ Accepts (execute s server).2 rest

/-- The server fails a statement. -/
def Refuses (server : π) (s : Statement) (f : ServerFailure) : Prop :=
  (execute s server).1 = .error f

theorem after_append (server : π) (l r : List Statement) :
    after server (l ++ r) = after (after server l) r := List.foldl_append

/-- Some statements are all carried out, or there is a first that is not. -/
theorem accepts_or_refuses (server : π) (statements : List Statement) :
    Accepts server statements ∨
      ∃ before s rest f, statements = before ++ s :: rest ∧ Accepts server before ∧
        Refuses (after server before) s f := by
  induction statements generalizing server with
  | nil => exact .inl trivial
  | cons s rest ih =>
    cases hs : (execute s server).1 with
    | error f => exact .inr ⟨[], s, rest, f, rfl, trivial, hs⟩
    | ok rows =>
      rcases ih (execute s server).2 with hrest | ⟨before, t, rest', f, rfl, hbefore, hrefuses⟩
      · exact .inl ⟨⟨rows, hs⟩, hrest⟩
      · exact .inr ⟨s :: before, t, rest', f, rfl, ⟨⟨rows, hs⟩, hbefore⟩, hrefuses⟩

/-- A server shows what a transaction does only when it has acknowledged the commit.  What others see
of it is `shown`, and `isOpen` says that a transaction is under way. -/
structure Isolates {α : Type} (shown : π → α) (isOpen : π → Prop) : Prop where
  begun {server} : (∃ rows, (execute .begin server).1 = .ok rows) → isOpen (execute .begin server).2
  hidden_begin (server) : shown (execute .begin server).2 = shown server
  kept {server s} : isOpen server → s.isBound = false → isOpen (execute s server).2
  hidden {server s} : isOpen server → s.isBound = false → shown (execute s server).2 = shown server
  uncommitted {server f} : isOpen server → Refuses server .commit f →
    shown (execute .commit server).2 = shown server
  rolledBack (server) : shown (execute .rollback server).2 = shown server

end SqlServer

open SqlServer

/-- A server with the statements that it was sent. -/
structure Recorded (π : Type) where
  server : π
  sent : List Statement

namespace Recorded

variable {π : Type} [SqlServer π]

/-- Executes a statement and writes it down. -/
def execute (s : Statement) (r : Recorded π) :
    Except ServerFailure (List ServerRow) × Recorded π :=
  let (answer, server) := SqlServer.execute s r.server
  (answer, ⟨server, r.sent ++ [s]⟩)

instance : SqlServer (Recorded π) := ⟨execute⟩

end Recorded

/-! ## Scripts -/

namespace Remote

variable {π : Type} [SqlServer π]

theorem send_recorded (s : Statement) (r : Recorded π) :
    send s r = ((SqlServer.execute s r.server).1.mapError (·.toError),
      ⟨(SqlServer.execute s r.server).2, r.sent ++ [s]⟩) := by
  have hexecute : SqlServer.execute s r = ((SqlServer.execute s r.server).1,
      ⟨(SqlServer.execute s r.server).2, r.sent ++ [s]⟩) := rfl
  rw [send, hexecute]
  cases (SqlServer.execute s r.server).1 <;> rfl

theorem sendAll_accepted {statements : List Statement} {r : Recorded π}
    (h : Accepts r.server statements) :
    sendAll statements r = (.ok (), ⟨after r.server statements, r.sent ++ statements⟩) := by
  induction statements generalizing r with
  | nil => rw [List.append_nil]; rfl
  | cons s rest ih =>
    obtain ⟨⟨rows, hrows⟩, hrest⟩ := h
    rw [sendAll, send_recorded, hrows]
    simp only [Except.mapError]
    rw [ih (r := ⟨(SqlServer.execute s r.server).2, r.sent ++ [s]⟩) hrest, List.append_assoc]
    rfl

theorem sendAll_refused {before rest : List Statement} {s : Statement} {f : ServerFailure}
    {r : Recorded π} (hbefore : Accepts r.server before)
    (hrefuses : Refuses (after r.server before) s f) :
    sendAll (before ++ s :: rest) r =
      (.error f.toError, ⟨after r.server (before ++ [s]), r.sent ++ (before ++ [s])⟩) := by
  induction before generalizing r with
  | nil =>
    have hs : (SqlServer.execute s r.server).1 = .error f := hrefuses
    rw [List.nil_append, sendAll, send_recorded, hs]
    rfl
  | cons t before ih =>
    obtain ⟨⟨rows, hrows⟩, hbefore⟩ := hbefore
    rw [List.cons_append, sendAll, send_recorded, hrows]
    simp only [Except.mapError]
    rw [ih (r := ⟨(SqlServer.execute t r.server).2, r.sent ++ [t]⟩) hbefore hrefuses,
      List.append_assoc]
    rfl

theorem transact_accepted {body : List Statement} {r : Recorded π}
    (h : Accepts r.server (.begin :: body ++ [.commit])) :
    transact body r = (.ok (), ⟨after r.server (.begin :: body ++ [.commit]),
      r.sent ++ (.begin :: body ++ [.commit])⟩) := by
  rw [transact, sendAll_accepted h]

theorem transact_refused {body before rest : List Statement} {s : Statement} {f : ServerFailure}
    {r : Recorded π} (hbody : .begin :: body ++ [.commit] = before ++ s :: rest)
    (hbefore : Accepts r.server before) (hrefuses : Refuses (after r.server before) s f) :
    transact body r = (.error f.toError,
      ⟨after r.server (before ++ [s, .rollback]), r.sent ++ (before ++ [s, .rollback])⟩) := by
  have hsent : r.sent ++ (before ++ [s, .rollback]) = r.sent ++ (before ++ [s]) ++ [.rollback] := by
    simp
  have hafter : after r.server (before ++ [s, .rollback]) =
      (SqlServer.execute .rollback (after r.server (before ++ [s]))).2 := by
    rw [after_append, after_append]
    rfl
  rw [transact, hbody, sendAll_refused hbefore hrefuses, hsent, hafter]
  simp only [send_recorded]

end Remote

namespace Statement

/-- What is sent for a batch if nothing fails. -/
def script (now : Int) (indexer : String) (b : Batch) : List Statement :=
  .begin :: ofBatch now indexer b ++ [.commit]

theorem isBound_of_mem_ofBatch {now : Int} {indexer : String} {b : Batch} {s : Statement}
    (h : s ∈ ofBatch now indexer b) : s.isBound = false := by
  rw [ofBatch, reconcileSets] at h
  simp only [List.mem_append, List.mem_map] at h
  rcases h with (((⟨_, -, rfl⟩ | ⟨_, -, rfl⟩) | h) | ⟨_, -, rfl⟩) | h
  · rfl
  · rfl
  · split at h
    · cases h
    · simp at h
      rcases h with rfl | ⟨_, -, rfl⟩ | rfl | rfl <;> rfl
  · rfl
  · cases hc : b.cursor with
    | none => rw [hc] at h; cases h
    | some c => rw [hc] at h; rw [List.mem_singleton.1 h]; rfl

/-- A statement of a script is its beginning, or comes after it and after statements that bound no
transaction; then it is the commit or bounds none itself. -/
theorem script_split {now : Int} {indexer : String} {b : Batch} {before rest : List Statement}
    {s : Statement} (h : script now indexer b = before ++ s :: rest) :
    (before = [] ∧ s = .begin) ∨
      ∃ done, before = .begin :: done ∧ (∀ t ∈ done, t.isBound = false) ∧
        (s = .commit ∨ s.isBound = false) := by
  rw [script, List.cons_append] at h
  cases before with
  | nil => exact .inl ⟨rfl, (List.cons.inj h).1.symm⟩
  | cons t done =>
    rw [List.cons_append] at h
    obtain ⟨rfl, hrest⟩ := List.cons.inj h
    have hbody (t : Statement) (ht : t ∈ ofBatch now indexer b) : t.isBound = false :=
      isBound_of_mem_ofBatch ht
    refine .inr ⟨done, rfl, ?_⟩
    -- either the commit is what follows `done`, or it is the last of `rest`
    rcases List.eq_nil_or_concat rest with rfl | ⟨rest, last, rfl⟩
    · obtain ⟨rfl, hs⟩ := List.append_inj' hrest rfl
      exact ⟨hbody, .inl (List.singleton_inj.1 hs).symm⟩
    · have hlast : ofBatch now indexer b ++ [.commit] = (done ++ s :: rest) ++ [last] := by
        simpa using hrest
      obtain ⟨hsplit, -⟩ := List.append_inj' hlast rfl
      rw [hsplit] at hbody
      exact ⟨fun t ht => hbody t (by simp [ht]), .inr (hbody s (by simp))⟩

/-- A script comes to its commit only at the end. -/
theorem eq_commit_of_mem {now : Int} {indexer : String} {b : Batch} {before rest : List Statement}
    {s : Statement} (h : script now indexer b = before ++ s :: rest)
    (hmem : .commit ∈ before ++ [s, .rollback]) : s = .commit := by
  rcases script_split h with ⟨rfl, rfl⟩ | ⟨done, rfl, hdone, -⟩
  · simp at hmem
  · have hnot : .commit ∉ done := fun hcommit => by cases hdone .commit hcommit
    simpa [hnot, eq_comm] using hmem

end Statement

namespace SqlServer

variable {π : Type} [SqlServer π] {α : Type} {shown : π → α} {isOpen : π → Prop}

/-- While a transaction is under way nothing of it is shown. -/
theorem Isolates.after (h : Isolates shown isOpen) {server : π} {statements : List Statement}
    (hopen : isOpen server) (hbound : ∀ s ∈ statements, s.isBound = false) :
    isOpen (after server statements) ∧ shown (SqlServer.after server statements) = shown server := by
  induction statements generalizing server with
  | nil => exact ⟨hopen, rfl⟩
  | cons s rest ih =>
    obtain ⟨hs, hrest⟩ := List.forall_mem_cons.1 hbound
    obtain ⟨hopen', hshown⟩ := ih (h.kept hopen hs) hrest
    exact ⟨hopen', hshown.trans (h.hidden hopen hs)⟩

/-- Where a script fails, nothing of it is ever shown. -/
theorem Isolates.of_refused (h : Isolates shown isOpen) {server : π} {now : Int} {indexer : String}
    {b : Batch} {before rest : List Statement} {s : Statement} {f : ServerFailure}
    (hscript : Statement.script now indexer b = before ++ s :: rest)
    (hbefore : Accepts server before) (hrefuses : Refuses (SqlServer.after server before) s f) :
    shown (SqlServer.after server (before ++ [s, .rollback])) = shown server := by
  rw [after_append]
  refine (h.rolledBack _).trans ?_
  rcases Statement.script_split hscript with ⟨rfl, rfl⟩ | ⟨done, rfl, hdone, hs⟩
  · exact h.hidden_begin server
  · obtain ⟨hopen, hshown⟩ := h.after (h.begun hbefore.1) hdone
    refine Eq.trans ?_ (hshown.trans (h.hidden_begin server))
    rcases hs with rfl | hs
    · exact h.uncommitted hopen hrefuses
    · exact h.hidden hopen hs

end SqlServer

/-! ## Commits -/

namespace RemoteStore

variable {π : Type} [SqlServer π] {now : Int} {indexer : String} {b : Batch}

/-- A store on a server that has been sent nothing yet. -/
def fresh (server : π) : RemoteStore (Recorded π) := ⟨⟨server, []⟩⟩

theorem commit_of_accepts {server : π} (h : Accepts server (Statement.script now indexer b)) :
    CommitStore.commit now indexer b (fresh server) =
      (.ok (Statement.summary b), ⟨⟨after server (Statement.script now indexer b),
        Statement.script now indexer b⟩⟩) := by
  have hcommit : Remote.commit now indexer b (Recorded.mk server []) =
      (.ok (Statement.summary b), ⟨after server (Statement.script now indexer b),
        Statement.script now indexer b⟩) := by
    rw [Remote.commit, Remote.transact_accepted h]
    rfl
  exact congrArg (fun x => (x.1, RemoteStore.mk x.2)) hcommit

theorem commit_of_refuses {server : π} {before rest : List Statement} {s : Statement}
    {f : ServerFailure} (hscript : Statement.script now indexer b = before ++ s :: rest)
    (hbefore : Accepts server before) (hrefuses : Refuses (after server before) s f) :
    CommitStore.commit now indexer b (fresh server) =
      (.error f.toError, ⟨⟨after server (before ++ [s, .rollback]), before ++ [s, .rollback]⟩⟩) := by
  have hcommit : Remote.commit now indexer b (Recorded.mk server []) =
      (.error f.toError, ⟨after server (before ++ [s, .rollback]), before ++ [s, .rollback]⟩) := by
    rw [Remote.commit, Remote.transact_refused hscript hbefore hrefuses]
    rfl
  exact congrArg (fun x => (x.1, RemoteStore.mk x.2)) hcommit

/-- A store that answers with a summary has sent the script, and nothing of it was refused. -/
theorem script_of_commit {server : π} {summary : CommitSummary} {s : RemoteStore (Recorded π)}
    (h : CommitStore.commit now indexer b (fresh server) = (.ok summary, s)) :
    Accepts server (Statement.script now indexer b) ∧
      s.server.sent = Statement.script now indexer b ∧ summary = Statement.summary b := by
  rcases accepts_or_refuses server (Statement.script now indexer b) with
    haccepts | ⟨before, s', rest, f, hscript, hbefore, hrefuses⟩
  · rw [commit_of_accepts haccepts] at h
    cases h
    exact ⟨haccepts, rfl, rfl⟩
  · rw [commit_of_refuses hscript hbefore hrefuses] at h
    cases h

/-- **A commit that fails applies nothing.**  If the server fails a statement of the script, be it the
beginning or the commit, the store answers with that failure as an error of storage; the server has
then been sent the script up to that statement and the order to roll back, and neither a further
statement of the script nor a commit.  A server that isolates transactions shows what it showed
before.  And the store answers with its summary exactly if the server has carried out the whole
script, the commit included, and then that is all it was sent. -/
theorem commit_refused (server : π) (now : Int) (indexer : String) (b : Batch) :
    let answered := CommitStore.commit now indexer b (fresh server)
    (∀ before s rest f, Statement.script now indexer b = before ++ s :: rest →
      Accepts server before → Refuses (after server before) s f →
        answered.1 = .error (.storage ("error returned from database: " ++ f.text)) ∧
        answered.2.server.sent = before ++ [s, .rollback] ∧
        (.commit ∈ answered.2.server.sent → s = .commit) ∧
        ∀ {α : Type} (shown : π → α) (isOpen : π → Prop), Isolates shown isOpen →
          shown answered.2.server.server = shown server) ∧
    (Accepts server (Statement.script now indexer b) →
      answered.1 = .ok (Statement.summary b)) ∧
    ∀ summary, answered.1 = .ok summary →
      Accepts server (Statement.script now indexer b) ∧
        answered.2.server.sent = Statement.script now indexer b := by
  refine ⟨fun before s rest f hscript hbefore hrefuses => ?_, fun haccepts => ?_,
    fun summary hok => ?_⟩
  · rw [commit_of_refuses hscript hbefore hrefuses]
    exact ⟨rfl, rfl, Statement.eq_commit_of_mem hscript,
      fun _ _ h => h.of_refused hscript hbefore hrefuses⟩
  · rw [commit_of_accepts haccepts]
  · obtain ⟨haccepts, hsent, -⟩ := script_of_commit (Prod.ext hok rfl)
    exact ⟨haccepts, hsent⟩

end RemoteStore

/-! ### A server that fails once -/

/-- A server that keeps the statements it has carried out, and fails one. -/
structure FailingOnce where
  shown : List Statement
  /-- the statements of the transaction under way -/
  pending : Option (List Statement)
  /-- how many statements it carries out before it fails one; nothing if it fails none any more -/
  patience : Option Nat

namespace FailingOnce

/-- The server after a statement that it carries out. -/
def carryOut (k : FailingOnce) : Statement → FailingOnce
  | .begin => { k with pending := some [] }
  | .commit => { k with shown := k.shown ++ k.pending.getD [], pending := none }
  | .rollback => { k with pending := none }
  | s =>
    match k.pending with
    | some done => { k with pending := some (done ++ [s]) }
    | none => { k with shown := k.shown ++ [s] }

/-- Executes a statement. -/
def execute (s : Statement) (k : FailingOnce) :
    Except ServerFailure (List ServerRow) × FailingOnce :=
  match k.patience with
  | some 0 => (.error ⟨"disk full"⟩, { k with patience := none })
  | patience => (.ok [], { k.carryOut s with patience := patience.map Nat.pred })

instance : SqlServer FailingOnce := ⟨execute⟩

theorem carryOut_of_open {k : FailingOnce} {done : List Statement} {s : Statement}
    (hopen : k.pending = some done) (hbound : s.isBound = false) :
    k.carryOut s = { k with pending := some (done ++ [s]) } := by
  obtain ⟨shown, pending, patience⟩ := k
  subst hopen
  cases s <;> first | rfl | cases hbound

/-- In a transaction it takes a statement up, or fails it and keeps to where it was. -/
theorem execute_of_open {k : FailingOnce} {s : Statement} (hopen : k.pending.isSome)
    (hbound : s.isBound = false) :
    (execute s k).2.pending.isSome ∧ (execute s k).2.shown = k.shown := by
  obtain ⟨done, hdone⟩ := Option.isSome_iff_exists.1 hopen
  rw [execute]
  split
  · exact ⟨hopen, rfl⟩
  · rw [carryOut_of_open hdone hbound]
    exact ⟨rfl, rfl⟩

theorem isolates : Isolates (fun k : FailingOnce => k.shown) (fun k => k.pending.isSome) where
  begun {k} := by
    rintro ⟨rows, hrows⟩
    obtain ⟨shown, pending, _ | _ | n⟩ := k
    · rfl
    · cases hrows
    · rfl
  hidden_begin k := by obtain ⟨shown, pending, _ | _ | n⟩ := k <;> rfl
  kept hopen hbound := (execute_of_open hopen hbound).1
  hidden hopen hbound := (execute_of_open hopen hbound).2
  uncommitted {k f} _ hrefuses := by
    obtain ⟨shown, pending, _ | _ | n⟩ := k
    · cases hrefuses
    · rfl
    · cases hrefuses
  rolledBack k := by obtain ⟨shown, pending, _ | _ | n⟩ := k <;> rfl

theorem accepts_of_le {statements : List Statement} {n : Nat} (h : statements.length ≤ n)
    (shown : List Statement) (pending : Option (List Statement)) :
    Accepts (FailingOnce.mk shown pending (some n)) statements := by
  induction statements generalizing n shown pending with
  | nil => trivial
  | cons s rest ih =>
    obtain ⟨n, rfl⟩ := Nat.exists_eq_succ_of_ne_zero (Nat.ne_zero_of_lt h)
    exact ⟨⟨[], rfl⟩, ih (Nat.le_of_succ_le_succ h) _ _⟩

theorem accepts_of_none (statements : List Statement) (shown : List Statement)
    (pending : Option (List Statement)) :
    Accepts (FailingOnce.mk shown pending none) statements := by
  induction statements generalizing shown pending with
  | nil => trivial
  | cons s rest ih => exact ⟨⟨[], rfl⟩, ih _ _⟩

/-- It fails the statement after as many as its patience lasts. -/
theorem refuses_after (statements : List Statement) (s : Statement) (shown : List Statement)
    (pending : Option (List Statement)) :
    Refuses (after (FailingOnce.mk shown pending (some statements.length)) statements) s
      ⟨"disk full"⟩ := by
  induction statements generalizing shown pending with
  | nil => rfl
  | cons t rest ih => exact ih _ _

end FailingOnce

namespace RemoteStore

/-- A batch that has something of everything. -/
def varied : Batch :=
  { Batch.empty with
    calls := [⟨"0xa", 5, "d5", "0x1", "shop", "buy", .array [], "d5", 0⟩]
    events := [⟨"0xa", 5, "d5", "sold", "Sold", .null, 0⟩]
    changes := [⟨⟨"stock", some "a", none⟩, some .null, 5, "d5", "0xa"⟩,
      ⟨⟨"stock", some "b", none⟩, none, 5, "d5", "0xa"⟩]
    cursor := some ⟨"d5", 5⟩ }

theorem commit_refused_atCommit :
    let script := Statement.script 9 "shop" varied
    let before := Statement.begin :: Statement.ofBatch 9 "shop" varied
    let failed := CommitStore.commit 9 "shop" varied
      (fresh (FailingOnce.mk [] none (some before.length)))
    let taken := CommitStore.commit 9 "shop" varied (fresh (FailingOnce.mk [] none none))
    before.length = 9 ∧
      failed.1 = .error (.storage "error returned from database: disk full") ∧
      failed.2.server.sent = script ++ [.rollback] ∧ failed.2.server.server.shown = [] ∧
      taken.1 = .ok ⟨1, 1, 1, 1, some ⟨"d5", 5⟩⟩ ∧ taken.2.server.sent = script := by
  intro script before failed taken
  have hscript : script = before ++ .commit :: [] := rfl
  obtain ⟨herror, hsent, -, hshown⟩ :=
    (commit_refused (FailingOnce.mk [] none (some before.length)) 9 "shop" varied).1 before .commit
      [] ⟨"disk full"⟩ hscript (FailingOnce.accepts_of_le (Nat.le_refl _) [] none)
      (FailingOnce.refuses_after before .commit [] none)
  obtain ⟨-, hok, hall⟩ := commit_refused (FailingOnce.mk [] none none) 9 "shop" varied
  have htaken : taken.1 = .ok (Statement.summary varied) :=
    hok (FailingOnce.accepts_of_none script [] none)
  have hsummary : Statement.summary varied = ⟨1, 1, 1, 1, some ⟨"d5", 5⟩⟩ := by cbv
  refine ⟨by cbv, herror, ?_, hshown _ _ FailingOnce.isolates, ?_, (hall _ htaken).2⟩
  · rw [hsent, hscript, List.append_assoc]
    rfl
  · rw [htaken, hsummary]

end RemoteStore

end LedgerIndex
