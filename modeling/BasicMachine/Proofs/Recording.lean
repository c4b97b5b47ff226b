import Mathlib.Logic.Relation
import BasicMachine.Proofs.CommandFrame
import BasicMachine.Proofs.ProgramRun

/-! Runs with a record of what they do. A turn is written once more with a note for every command that it
runs and every look for the next line of the program, together with the machine at that moment. Without
the notes it is the turn itself, and so is the whole run. Whatever is noted in a run is noted in one of its
turns, and the notes behind it are those of the rest of that turn and of the turns to come. -/
namespace BasicMachine

/-- What a turn can do. -/
inductive Act where
  | pending (tokens : List Token)
  | queued (line : Text)
  /-- The next line of the program is looked for. -/
  | fetch
  | stored (line : Text)
  deriving DecidableEq, Repr

/-- What running the command or looking for the line does to the machine. -/
def Act.execute : Act → Action Unit
  | pending tokens => Machine.runTokens tokens
  | queued line => Machine.runQueued line
  | fetch => do let _ ← Machine.nextProgramLine; return
  | stored line => Machine.runLine line

/-- A note: what is done next, and the machine before it. -/
structure Moment where
  machine : Machine
  act : Act

/-- A step on the machine, and the notes that it takes. -/
structure Recording (α : Type) where
  action : Action α
  moments : Machine → List Moment

namespace Recording

variable {α β : Type}

def quiet (x : Action α) : Recording α := ⟨x, fun _ => []⟩

def noted (act : Act) (x : Action α) : Recording α := ⟨x, fun m => [⟨m, act⟩]⟩

instance : Monad Recording where
  pure a := quiet (pure a)
  bind x f :=
    { action := do (f (← x.action)).action
      moments := fun m => x.moments m ++ match x.action.run m with
        | (.ok a, m') => (f a).moments m'
        | (.error _, _) => [] }

@[simp] theorem action_pure (a : α) : (pure a : Recording α).action = pure a := rfl

@[simp] theorem action_quiet (x : Action α) : (quiet x).action = x := rfl

@[simp] theorem action_noted (act : Act) (x : Action α) : (noted act x).action = x := rfl

@[simp] theorem action_bind (x : Recording α) (f : α → Recording β) :
    (x >>= f).action = x.action >>= fun a => (f a).action := rfl

theorem moments_get_bind (x : Machine → Recording α) (m : Machine) :
    (quiet get >>= x).moments m = (x m).moments m := rfl

theorem run_get_bind (x : Machine → Recording α) (m : Machine) :
    (quiet get >>= x).action.run m = (x m).action.run m := rfl

theorem moments_bind_ok {x : Recording α} {f : α → Recording β} {m m' : Machine} {a : α}
    (h : x.action.run m = (.ok a, m')) :
    (x >>= f).moments m = x.moments m ++ (f a).moments m' := by
  change x.moments m ++ _ = _
  rw [h]

theorem moments_bind_error {x : Recording α} {f : α → Recording β} {m m' : Machine} {e : Fault}
    (h : x.action.run m = (.error e, m')) : (x >>= f).moments m = x.moments m := by
  change x.moments m ++ _ = _
  rw [h, List.append_nil]

def runPending : Recording Unit := do
  match (← quiet get).control.pending with
  | some tokens =>
    noted (.pending tokens) (Machine.runTokens tokens)
    quiet (Machine.changeControl fun c => { c with pending := none })
  | none => pure ()

def runFromMemory : Recording Unit := do
  if !(← quiet get).running then return
  match ← noted .fetch Machine.nextProgramLine with
  | some line => noted (.stored line) (Machine.runLine line)
  | none =>
    quiet (modify fun m => { m with running := false })
    quiet Debugger.onExit

/-- The part of a turn behind the pending command. -/
def runNext : Recording Unit := do
  let m ← quiet get
  match m.queue with
  | line :: rest =>
    quiet (set { m with queue := rest })
    noted (.queued line) (Machine.runQueued line)
  | [] => runFromMemory

def turn : Recording Unit := do
  runPending
  runNext

theorem action_runPending : runPending.action = Machine.runPending := by
  refine Run.ext fun m => ?_
  cases h : m.control.pending <;> simp [runPending, Machine.runPending, Run.run_bind, h]

theorem action_runFromMemory : runFromMemory.action = Machine.runFromMemory := by
  simp only [runFromMemory, Machine.runFromMemory, action_bind, action_quiet]
  congr 1
  funext m
  cases m.running with
  | false => rfl
  | true =>
    refine congrArg (Machine.nextProgramLine >>= ·) (funext fun line => ?_)
    cases line <;> rfl

theorem action_turn : turn.action = Machine.turn := by
  rw [turn, action_bind, action_runPending]
  refine congrArg (Machine.runPending >>= ·) (funext fun _ => ?_)
  refine congrArg (get >>= ·) (funext fun m => ?_)
  dsimp only
  cases m.queue with
  | nil => exact action_runFromMemory
  | cons line rest => rfl

end Recording

theorem exists_moment_of_mem {l : List Moment} {act : Act} (h : act ∈ l.map Moment.act) :
    ∃ before k after, l = before ++ ⟨k, act⟩ :: after := by
  obtain ⟨p, hp, rfl⟩ := List.mem_map.mp h
  obtain ⟨before, after, rfl⟩ := List.append_of_mem hp
  exact ⟨before, p.machine, after, rfl⟩

namespace Machine

def cleared (m : Machine) : Machine := { m with control := { m.control with pending := none } }

section Pending

variable {k k' : Machine} {tokens : List Token}

theorem run_runPending_none (h : k.control.pending = none) : runPending.run k = (.ok (), k) := by
  simp [runPending, Run.run_bind, h]

theorem run_runPending_done (h : k.control.pending = some tokens)
    (hrun : (runTokens tokens).run k = (.ok (), k')) : runPending.run k = (.ok (), k'.cleared) := by
  simp [runPending, Run.run_bind, h, hrun, changeControl, cleared]

theorem run_runPending_failed {e : Fault} (h : k.control.pending = some tokens)
    (hrun : (runTokens tokens).run k = (.error e, k')) : runPending.run k = (.error e, k') := by
  simp [runPending, Run.run_bind, h, hrun]

end Pending

/-- What the part of a turn behind the pending command notes, and its result. -/
inductive GoesOn (k : Machine) : List Moment → Except Fault Unit × Machine → Prop
  | queued {line : Text} {rest : List Text} (queue : k.queue = line :: rest) :
    GoesOn k [⟨{ k with queue := rest }, .queued line⟩] ((runQueued line).run { k with queue := rest })
  | stopped (queue : k.queue = []) (running : k.running = false) : GoesOn k [] (.ok (), k)
  | stored {line : Text} {k' : Machine} (queue : k.queue = []) (running : k.running = true)
    (found : nextProgramLine.run k = (.ok (some line), k')) :
    GoesOn k [⟨k, .fetch⟩, ⟨k', .stored line⟩] ((runLine line).run k')
  | ended {k' : Machine} (queue : k.queue = []) (running : k.running = true)
    (found : nextProgramLine.run k = (.ok none, k')) :
    GoesOn k [⟨k, .fetch⟩] (Debugger.onExit.run { k' with running := false })
  | unread {k' : Machine} {e : Fault} (queue : k.queue = []) (running : k.running = true)
    (fault : nextProgramLine.run k = (.error e, k')) : GoesOn k [⟨k, .fetch⟩] (.error e, k')

/-- What a turn notes, and its result. -/
inductive Goes (k : Machine) : List Moment → Except Fault Unit × Machine → Prop
  | free {l : List Moment} {r : Except Fault Unit × Machine} (pending : k.control.pending = none)
    (rest : GoesOn k l r) : Goes k l r
  | failed {tokens : List Token} {k' : Machine} {e : Fault} (pending : k.control.pending = some tokens)
    (fault : (runTokens tokens).run k = (.error e, k')) :
    Goes k [⟨k, .pending tokens⟩] (.error e, k')
  | done {tokens : List Token} {k' : Machine} {l : List Moment} {r : Except Fault Unit × Machine}
    (pending : k.control.pending = some tokens) (run : (runTokens tokens).run k = (.ok (), k'))
    (rest : GoesOn k'.cleared l r) : Goes k (⟨k, .pending tokens⟩ :: l) r

end Machine

namespace Recording

open Machine (Goes GoesOn)

theorem goesOn (k : Machine) : GoesOn k (runNext.moments k) (runNext.action.run k) := by
  rw [runNext, moments_get_bind, run_get_bind]
  cases hqueue : k.queue with
  | cons line rest => exact .queued hqueue
  | nil =>
    dsimp only
    rw [runFromMemory, moments_get_bind, run_get_bind]
    cases hrunning : k.running with
    | false => exact .stopped hqueue hrunning
    | true =>
      simp only [Bool.not_true, Bool.false_eq_true, if_false]
      rcases hfound : Machine.nextProgramLine.run k with ⟨found, k'⟩
      have hread : (noted .fetch Machine.nextProgramLine).action.run k = (found, k') := hfound
      cases found with
      | error e =>
        rw [moments_bind_error hread, action_bind, Run.run_bind_error hread]
        exact .unread hqueue hrunning hfound
      | ok line =>
        rw [moments_bind_ok hread, action_bind, Run.run_bind_ok hread]
        cases line with
        | none =>
          change GoesOn k [⟨k, .fetch⟩] (Debugger.onExit.run { k' with running := false })
          exact .ended hqueue hrunning hfound
        | some line =>
          change GoesOn k [⟨k, .fetch⟩, ⟨k', .stored line⟩] ((Machine.runLine line).run k')
          exact .stored hqueue hrunning hfound

theorem moments_runPending_none {k : Machine} (h : k.control.pending = none) :
    runPending.moments k = [] := by
  rw [runPending, moments_get_bind, h]
  rfl

theorem moments_runPending_some {k : Machine} {tokens : List Token}
    (h : k.control.pending = some tokens) : runPending.moments k = [⟨k, .pending tokens⟩] := by
  rw [runPending, moments_get_bind, h]
  rcases hrun : (Machine.runTokens tokens).run k with ⟨r, k'⟩
  cases r with
  | error e => exact moments_bind_error hrun
  | ok u => exact moments_bind_ok hrun

theorem goes (k : Machine) : Goes k (turn.moments k) (Machine.turn.run k) := by
  rw [← action_turn, turn, action_bind]
  cases hpending : k.control.pending with
  | none =>
    have hfirst : runPending.action.run k = (.ok (), k) := by
      rw [action_runPending, Machine.run_runPending_none hpending]
    rw [moments_bind_ok hfirst, Run.run_bind_ok hfirst, moments_runPending_none hpending]
    exact .free hpending (goesOn k)
  | some tokens =>
    rcases hrun : (Machine.runTokens tokens).run k with ⟨r, k'⟩
    cases r with
    | error e =>
      have hfirst : runPending.action.run k = (.error e, k') := by
        rw [action_runPending, Machine.run_runPending_failed hpending hrun]
      rw [moments_bind_error hfirst, Run.run_bind_error hfirst, moments_runPending_some hpending]
      exact .failed hpending hrun
    | ok u =>
      have hfirst : runPending.action.run k = (.ok (), k'.cleared) := by
        rw [action_runPending, Machine.run_runPending_done hpending hrun]
      rw [moments_bind_ok hfirst, Run.run_bind_ok hfirst, moments_runPending_some hpending]
      exact .done hpending hrun (goesOn k'.cleared)

end Recording

namespace Machine

/-- The run of the machine with its notes. -/
def recordTurns : Nat → Machine → (Report × Machine) × List Moment
  | 0, m => (if m.isDone then m.finish else (⟨.limit, 0, []⟩, m), [])
  | n + 1, m =>
    if m.isDone then (m.finish, [])
    else match Recording.turn.action.run m with
      | (.error e, m') => ((⟨.failed e, 0, []⟩, m'.halt), Recording.turn.moments m)
      | (.ok _, m') =>
        let ((r, last), later) :=
          if !m'.isDone && m'.isIdle then ((⟨.idle, 0, []⟩, m'), []) else recordTurns n m'
        ((r.after (glimpse m m'), last), Recording.turn.moments m ++ later)

/-- Without the notes it is the run. -/
theorem recordTurns_fst (n : Nat) (m : Machine) : (m.recordTurns n).1 = m.runTurns n := by
  induction n generalizing m with
  | zero => rfl
  | succ n ih =>
    simp only [recordTurns, runTurns, Recording.action_turn]
    split
    · rfl
    · rcases turn.run m with ⟨r, m'⟩
      cases r with
      | error e => rfl
      | ok u =>
        dsimp only
        split
        · rfl
        · rw [← ih]

def moments (n : Nat) (m : Machine) : List Moment := (m.recordTurns n).2

/-- The notes of the run that goes on behind a turn with the given result. -/
def momentsAfter (n : Nat) : Except Fault Unit × Machine → List Moment
  | (.error _, _) => []
  | (.ok _, m) => if !m.isDone && m.isIdle then [] else m.moments n

theorem moments_succ (n : Nat) (m : Machine) :
    m.moments (n + 1) =
      if m.isDone then [] else Recording.turn.moments m ++ momentsAfter n (turn.run m) := by
  rw [moments, recordTurns, Recording.action_turn]
  split
  · rfl
  · rcases turn.run m with ⟨r, m'⟩
    cases r with
    | error e => simp [momentsAfter]
    | ok u =>
      dsimp only [momentsAfter]
      split <;> simp [moments]

theorem append_eq_append_cons {α : Type} {xs ys before after : List α} {a : α}
    (h : xs ++ ys = before ++ a :: after) :
    (∃ earlier, before = xs ++ earlier ∧ ys = earlier ++ a :: after) ∨
      ∃ later, xs = before ++ a :: later ∧ after = later ++ ys := by
  rcases List.append_eq_append_iff.mp h with ⟨earlier, hbefore, hys⟩ | ⟨rest, hxs, hrest⟩
  · exact .inl ⟨earlier, hbefore, hys⟩
  · cases rest with
    | nil => exact .inl ⟨[], by simp [hxs], hrest.symm⟩
    | cons b later =>
      obtain ⟨rfl, hafter⟩ := List.cons.inj hrest
      exact .inr ⟨later, hxs, hafter⟩

theorem append_cons_eq_singleton {α : Type} {before after : List α} {a b : α}
    (h : before ++ a :: after = [b]) : before = [] ∧ a = b ∧ after = [] := by
  cases before <;> simp_all

def TakesTurn (m m' : Machine) : Prop := m.isDone = false ∧ turn.run m = (.ok (), m')

/-- Whatever is noted in a run is noted in a turn of it. The notes in front of it end with those of that turn,
and the rest of the notes is what that turn and the run behind it still note. -/
theorem exists_turn_of_moments {n : Nat} {m : Machine} {before after : List Moment} {p : Moment}
    (h : m.moments n = before ++ p :: after) :
    ∃ k n' earlier later, Relation.ReflTransGen TakesTurn m k ∧ k.isDone = false ∧ earlier <:+ before ∧
      Recording.turn.moments k = earlier ++ p :: later ∧
      after = later ++ momentsAfter n' (turn.run k) := by
  induction n generalizing m before with
  | zero => simp [moments, recordTurns] at h
  | succ n ih =>
    rw [moments_succ] at h
    cases hdone : m.isDone with
    | true => simp [hdone] at h
    | false =>
      rw [hdone, if_neg (by simp)] at h
      -- The note is one of a later turn or one of this turn.
      rcases append_eq_append_cons h with ⟨earlier, rfl, hlater⟩ | ⟨later, hturn, hafter⟩
      · rcases hrun : turn.run m with ⟨r, m'⟩
        cases r with
        | error e => simp [hrun, momentsAfter] at hlater
        | ok u =>
          rw [hrun, momentsAfter] at hlater
          split at hlater
          · simp at hlater
          · obtain ⟨k, n', b, a, hreach, hgoing, hb, hk⟩ := ih hlater
            exact ⟨k, n', b, a, .head ⟨hdone, hrun⟩ hreach, hgoing,
              hb.trans (List.suffix_append _ _), hk⟩
      · exact ⟨m, n, before, later, .refl, hdone, List.suffix_refl _, hturn, hafter⟩

theorem moments_of_done {m : Machine} (h : m.isDone = true) (n : Nat) : m.moments n = [] := by
  cases n <;> simp [moments, recordTurns, h]

/-- The next line hangs on the memory and the next address, and looking for it moves the two addresses. -/
theorem run_nextProgramLine (m : Machine) :
    nextProgramLine.run m =
      let here := { m with control := { m.control with counter := m.control.next } }
      match m.memory.readLine m.control.next, m.memory.nextLine m.control.next with
      | .error e, _ => (if e = .endOfProgram then .ok none else .error e, here)
      | .ok _, .error _ => (.ok none, here)
      | .ok line, .ok a =>
        (.ok (some line), { here with control := { here.control with next := a } }) := by
  simp only [nextProgramLine, readProgramLine, changeControl, Run.run_tryCatch, Run.run_bind,
    Run.run_modify, Run.run_get, Run.run_ofExcept]
  cases m.memory.readLine m.control.next with
  | error e =>
    dsimp only
    split <;> rfl
  | ok line => cases m.memory.nextLine m.control.next <;> rfl

theorem nextProgramLine_snd (m : Machine) :
    ∃ a b, (nextProgramLine.run m).2 =
      { m with control := { m.control with counter := a, next := b } } := by
  rw [run_nextProgramLine]
  dsimp only
  split <;> exact ⟨_, _, rfl⟩

namespace GoesOn

/-- A command that is run behind the pending one is the last act of its turn. -/
theorem command_last {k : Machine} {p : Moment} {earlier later : List Moment}
    {r : Except Fault Unit × Machine} (h : GoesOn k (earlier ++ p :: later) r) (hp : p.act ≠ .fetch) :
    later = [] ∧ r = p.act.execute.run p.machine ∧
      ((∃ line rest, k.queue = line :: rest ∧ p = ⟨{ k with queue := rest }, .queued line⟩) ∨
        ∃ line k', k.queue = [] ∧ k.running = true ∧ earlier = [⟨k, .fetch⟩] ∧
          nextProgramLine.run k = (.ok (some line), k') ∧ p = ⟨k', .stored line⟩) := by
  generalize hl : earlier ++ p :: later = l at h
  cases h with
  | queued queue =>
    obtain ⟨-, rfl, rfl⟩ := append_cons_eq_singleton hl
    exact ⟨rfl, rfl, .inl ⟨_, _, queue, rfl⟩⟩
  | stopped => simp at hl
  | stored queue running found =>
    cases earlier with
    | nil =>
      obtain ⟨rfl, -⟩ := List.cons.inj hl
      exact absurd rfl hp
    | cons q earlier =>
      obtain ⟨rfl, rfl, rfl⟩ := append_cons_eq_singleton (List.cons.inj hl).2
      obtain ⟨rfl, -⟩ := List.cons.inj hl
      exact ⟨rfl, rfl, .inr ⟨_, _, queue, running, rfl, found, rfl⟩⟩
  | ended =>
    obtain ⟨-, rfl, -⟩ := append_cons_eq_singleton hl
    exact absurd rfl hp
  | unread =>
    obtain ⟨-, rfl, -⟩ := append_cons_eq_singleton hl
    exact absurd rfl hp

/-- With an empty queue the program goes on with its next line. -/
theorem fetches {k : Machine} {l : List Moment} {r : Except Fault Unit × Machine}
    (h : GoesOn k l r) (hqueue : k.queue = []) (hrunning : k.running = true) :
    ∃ rest, l = ⟨k, .fetch⟩ :: rest := by
  cases h with
  | queued queue => simp [hqueue] at queue
  | stopped _ running => simp [hrunning] at running
  | stored => exact ⟨_, rfl⟩
  | ended => exact ⟨[], rfl⟩
  | unread => exact ⟨[], rfl⟩

end GoesOn

/-- A note of a turn is about its pending command or belongs to the part behind that. -/
theorem Goes.pending_or_behind {k : Machine} {p : Moment} {earlier later : List Moment}
    {r : Except Fault Unit × Machine} (h : Goes k (earlier ++ p :: later) r) :
    (∃ tokens, k.control.pending = some tokens ∧ p = ⟨k, .pending tokens⟩ ∧
      match (runTokens tokens).run k with
      | (.error e, k') => later = [] ∧ r = (.error e, k')
      | (.ok _, k') => GoesOn k'.cleared later r) ∨
    ∃ k' l, runPending.run k = (.ok (), k') ∧ k'.control.pending = none ∧ l <:+ earlier ∧
      GoesOn k' (l ++ p :: later) r := by
  generalize hl : earlier ++ p :: later = l at h
  cases h with
  | free pending rest =>
    subst hl
    exact .inr ⟨k, earlier, run_runPending_none pending, pending, List.suffix_refl _, rest⟩
  | failed pending fault =>
    obtain ⟨-, rfl, rfl⟩ := append_cons_eq_singleton hl
    exact .inl ⟨_, pending, rfl, by rw [fault]; exact ⟨rfl, rfl⟩⟩
  | @done tokens k' _ _ pending run rest =>
    cases earlier with
    | nil =>
      obtain ⟨rfl, rfl⟩ := List.cons.inj hl
      exact .inl ⟨_, pending, rfl, by rw [run]; exact rest⟩
    | cons q earlier =>
      rw [← (List.cons.inj hl).2] at rest
      exact .inr ⟨k'.cleared, earlier, run_runPending_done pending run, rfl, List.suffix_cons _ _, rest⟩

/-- A line of the program is run with nothing else to do, and the rest of the run follows it. -/
theorem moments_after_stored {n : Nat} {m k : Machine} {before after : List Moment} {line : Text}
    (h : m.moments n = before ++ ⟨k, .stored line⟩ :: after) :
    k.control.pending = none ∧ k.queue = [] ∧ k.running = true ∧
      ∃ n', after = momentsAfter n' ((runLine line).run k) := by
  obtain ⟨k₀, n', earlier, later, -, -, -, hmoments, rfl⟩ := exists_turn_of_moments h
  have hgoes := Recording.goes k₀
  rw [hmoments] at hgoes
  rcases hgoes.pending_or_behind with ⟨tokens, -, heq, -⟩ | ⟨k₁, l, -, hpending, -, hrest⟩
  · cases heq
  · obtain ⟨rfl, hr, ⟨l, rest, -, heq⟩ | ⟨l, k', hqueue, hrunning, -, hfound, heq⟩⟩ :=
      hrest.command_last (by simp)
    · cases heq
    · cases heq
      obtain ⟨a, b, hk⟩ := k₁.nextProgramLine_snd
      rw [hfound] at hk
      subst hk
      exact ⟨hpending, hqueue, hrunning, n', by rw [hr]; rfl⟩

end Machine

/-- The queue stays as it is, and the program goes on or stays stopped. -/
def Frame.course : Frame Machine where
  allows m n := n.queue = m.queue ∧ n.running = m.running
  refl _ := ⟨rfl, rfl⟩
  trans h h' := ⟨h'.1.trans h.1, h'.2.trans h.2⟩

theorem Frame.open_course : Frame.course.Open where
  aside m n h := ⟨by rw [h.same], by rw [h.same]⟩
  write := .of_any fun _ _ _ => ⟨rfl, rfl⟩
  quit _ := ⟨rfl, rfl⟩
  exit _ := ⟨rfl, rfl⟩

/-- What a run does before it looks for the next line of the program. -/
def beforeFetch (l : List Moment) : List Act := (l.map Moment.act).takeWhile (· ≠ .fetch)

namespace Machine

/-- A running program with an empty queue runs its pending command and nothing else before it looks for the
next line. -/
theorem beforeFetch_moments {m : Machine} (hqueue : m.queue = []) (hrunning : m.running = true)
    (n : Nat) : beforeFetch (m.moments n) <+: (m.control.pending.map Act.pending).toList := by
  cases n with
  | zero => exact List.nil_prefix
  | succ n =>
    rw [moments_succ]
    split
    · exact List.nil_prefix
    · have hgoes := Recording.goes m
      generalize Recording.turn.moments m = l, turn.run m = r at hgoes ⊢
      cases hgoes with
      | free pending rest =>
        obtain ⟨rest, rfl⟩ := rest.fetches hqueue hrunning
        simp [beforeFetch]
      | failed pending fault => simp [beforeFetch, momentsAfter, pending]
      | @done tokens k' _ _ pending run rest =>
        have hkept := keeps_runTokens Frame.open_course tokens m
        rw [run] at hkept
        obtain ⟨rest, rfl⟩ := rest.fetches (hkept.1.trans hqueue) (hkept.2.trans hrunning)
        simp [beforeFetch, pending]

/-- A machine that is about to run these lines. -/
def started (lines : List Text) : Machine :=
  { ({} : Machine).withProgram (programOf (lines.map CodePage.encode)) with
    control := { next := programStart }
    running := true }

end Machine
end BasicMachine
