import BasicMachine.Proofs.Recording

/-! A part of the machine followed through a run. Each command steers only some of the course of the program,
so every other part of it stays as it is, unless a line typed at the debugger's prompt steers that part. Once
it is known what each act makes of a view of the machine, the view at every note of a run, and at its end, is
what the notes in front of it make of the view at the start. -/
namespace BasicMachine

open Run (Keeps)

/-- The tokens that a line typed at the prompt runs. -/
def Debugger.typedTokens (line : Text) : Option (List Token) :=
  if line.head? = some '.' then (Token.parse (line.drop 1)).toOption else none

/-- Whatever is still to be typed at the prompt runs only tokens with the property. -/
def Machine.Types (P : List Token → Prop) (m : Machine) : Prop :=
  ∀ line ∈ m.console.input, ∀ tokens ∈ Debugger.typedTokens line, P tokens

variable {α : Type} {part : Control → α} {P : List Token → Prop}

theorem Machine.Types.of_input {m n : Machine} (h : m.Types P)
    (hinput : n.console.input = m.console.input) : n.Types P := by
  unfold Machine.Types
  rwa [hinput]

/-- The command that the tokens begin with does not steer the part. -/
def Command.Spares (part : Control → α) (tokens : List Token) : Prop :=
  ∀ c ∈ commandOf? tokens, ∀ d e, c.steers (argumentsOf tokens) d e → part e = part d

namespace Frame

/-- The view stays as it is, as long as the invariant holds. -/
def observing (inv : Machine → Prop) (view : Machine → α) : Frame Machine where
  allows m n := inv m → inv n ∧ view n = view m
  refl _ h := ⟨h, rfl⟩
  trans h h' hm :=
    have hn := h hm
    ⟨(h' hn.1).1, (h' hn.1).2.trans hn.2⟩

/-- The part stays as it is, as long as only tokens with the property are typed at the prompt. -/
def holding (part : Control → α) (P : List Token → Prop) : Frame Machine :=
  observing (Machine.Types P) fun m => part m.control

theorem still_holding : (holding part P).Still := by
  intro m n _ hcontrol hinput hm
  exact ⟨hm.of_input hinput, congrArg part hcontrol⟩

theorem writable_holding : (holding part P).Writable := .of_any fun _ _ _ h => ⟨h, rfl⟩

theorem calm_holding : (holding part P).Calm := still_holding.calm writable_holding

theorem leaves_holding : (holding part P).Leaves :=
  ⟨still_holding, fun _ h => ⟨h, rfl⟩, fun _ h => ⟨h, rfl⟩⟩

theorem steered_holding {R : Control → Control → Prop} (h : ∀ d e, R d e → part e = part d) :
    (holding part P).Steered R := fun _ _ hR hm => ⟨hm, h _ _ hR⟩

end Frame

namespace Command

variable {h : Hooks} (hh : h.Keep (Frame.holding part P))
include hh

theorem keeps_runTokens_holding {tokens : List Token} (hspares : Spares part tokens) :
    Keeps (Frame.holding part P) (runTokens h tokens) :=
  keeps_runTokens_of_steered Frame.calm_holding hh tokens
    (fun c hc => Frame.steered_holding (hspares c hc)) fun _ _ _ => Frame.writable_holding

theorem keeps_runLine_holding {line : Text}
    (hspares : ∀ tokens ∈ (Token.parse line).toOption, Spares part tokens) :
    Keeps (Frame.holding part P) (runLine h line) := by
  refine keeps_runLine_of_steered Frame.calm_holding hh (fun tokens hparse c hc => ?_)
    fun _ _ _ _ _ => Frame.writable_holding
  exact Frame.steered_holding (hspares tokens (toOption_eq_some_iff.mpr hparse) c hc)

end Command

namespace Debugger

theorem mem_input_of_askLine {m : Machine} {line : Text} (h : (askLine.run m).1 = .ok line) :
    line ∈ m.console.input := by
  simp only [askLine, Machine.type, Run.run_bind, Run.run_modify, Run.run_get] at h
  cases hinput : m.console.input with
  | nil => simp [hinput] at h
  | cons first rest =>
    simp only [hinput, Run.run_bind, Run.run_set, Run.run_pure, Except.ok.injEq] at h
    simp [h]

section Observing

variable {view : Machine → α} (hview : ∀ m console, view { m with console } = view m)
  (hF : (Frame.observing (Machine.Types P) view).Leaves)
include hview hF

theorem keeps_askLine_observing : Keeps (Frame.observing (Machine.Types P) view) askLine := by
  refine (Machine.keeps_type hF.still _).bind fun _ => fun m hm => ?_
  cases hinput : m.console.input with
  | nil => simpa [Run.run_bind, hinput] using hm
  | cons line rest =>
    simp only [Run.run_bind, Run.run_get, hinput, Run.run_set, Run.run_pure]
    exact ⟨fun l hl => hm l (by simp [hinput, show l ∈ rest from hl]), hview m _⟩

/-- The prompt runs typed lines only. -/
theorem keeps_prompt_observing
    (hrun : ∀ h : Hooks, h.Keep (Frame.observing (Machine.Types P) view) → ∀ line : Text,
      (∀ tokens ∈ (Token.parse line).toOption, P tokens) →
        Keeps (Frame.observing (Machine.Types P) view) (Command.runLine h line))
    (n : Nat) : Keeps (Frame.observing (Machine.Types P) view) (prompt n) := by
  induction n with
  | zero => exact (keeps_askLine_observing hview hF).bind fun _ => .pure ()
  | succ n ih =>
    intro m hm
    refine Run.allows_bind (keeps_askLine_observing hview hF) (fun line hline => ?_) hm
    have htyped : line.head? = some '.' →
        ∀ tokens ∈ (Token.parse (line.drop 1)).toOption, P tokens := by
      intro hdot tokens htokens
      exact hm line (mem_input_of_askLine hline) tokens (by rwa [typedTokens, if_pos hdot])
    have htype (t : Text) : Keeps (Frame.observing (Machine.Types P) view)
        (do Machine.typeLine t; prompt n) :=
      (Machine.keeps_type hF.still _).bind fun _ => ih
    split
    · exact .pure ()
    split
    · exact .modify hF.quit
    split
    · exact .get_bind fun _ => htype _
    split
    · exact (keeps_dumpAll hF).bind fun _ => ih
    split
    · next hdot => exact (hrun _ (keep_hooksAt ih hF n) _ (htyped hdot)).bind fun _ => ih
    · exact htype _

end Observing

variable (hP : ∀ tokens, P tokens → Command.Spares part tokens)
include hP

theorem keeps_prompt_holding (n : Nat) : Keeps (Frame.holding part P) (prompt n) :=
  keeps_prompt_observing (fun _ _ => rfl) Frame.leaves_holding
    (fun _ hh _ htyped => Command.keeps_runLine_holding hh fun tokens htokens =>
      hP tokens (htyped tokens htokens)) n

theorem keep_hooks_holding : hooks.Keep (Frame.holding part P) :=
  keep_hooks_of_prompt Frame.leaves_holding (keeps_prompt_holding hP)

end Debugger

theorem Machine.input_report (level : LogLevel) (kind t : Text) (m : Machine) :
    ((report level kind t).run m).2.console.input = m.console.input := by
  simp only [report, record, typeLine, type, Run.run_bind, Run.run_get]
  split <;> split <;> rfl

namespace Act

/-- The tokens that the act runs, if it runs any. -/
def tokens? : Act → Option (List Token)
  | pending tokens => some tokens
  | queued ('/' :: _) => none
  | queued line => (Token.parse line).toOption
  | fetch => none
  | stored line => (Token.parse line).toOption

/-- An act keeps what its command spares. A look for the next line moves the two addresses. -/
theorem keeps_execute (hP : ∀ tokens, P tokens → Command.Spares part tokens) {act : Act}
    (hspares : ∀ tokens ∈ act.tokens?, Command.Spares part tokens)
    (hfetch : act = fetch → ∀ (c : Control) a b, part { c with counter := a, next := b } = part c) :
    Keeps (Frame.holding part P) act.execute := by
  have hhooks := Debugger.keep_hooks_holding hP
  cases act with
  | pending tokens => exact Command.keeps_runTokens_holding hhooks (hspares tokens rfl)
  | queued line =>
    change Keeps (Frame.holding part P) (Machine.runQueued line)
    unfold Machine.runQueued
    split
    · exact .ite _ (.modify fun m h => ⟨h, rfl⟩) (.ite _ (.modify fun m h => ⟨h, rfl⟩) (.pure _))
    · next hslash =>
      refine Command.keeps_runLine_holding hhooks fun tokens htokens => hspares tokens ?_
      rwa [tokens?]
      exact fun request heq => hslash request heq
  | fetch =>
    refine .bind (fun m hm => ?_) fun _ => .pure _
    obtain ⟨a, b, hafter⟩ := m.nextProgramLine_snd
    rw [hafter]
    exact ⟨hm, hfetch rfl m.control a b⟩
  | stored line => exact Command.keeps_runLine_holding hhooks hspares

/-- An act that runs tokens at most logs the line first. -/
theorem run_execute {act : Act} {tokens : List Token} (h : act.tokens? = some tokens) (m : Machine) :
    ∃ c : Console, c.input = m.console.input ∧
      act.execute.run m = (Machine.runTokens tokens).run { m with console := c } := by
  have hline {line : Text} (hparse : (Token.parse line).toOption = some tokens) :
      ∃ c : Console, c.input = m.console.input ∧
        (Machine.runLine line).run m = (Machine.runTokens tokens).run { m with console := c } := by
    have hok := toOption_eq_some_iff.mp hparse
    obtain ⟨c, hlog⟩ := Machine.run_report .debug "COMMAND".toList
      ("Running command: \"".toList ++ line ++ ['"']) m
    have hinput := Machine.input_report .debug "COMMAND".toList
      ("Running command: \"".toList ++ line ++ ['"']) m
    rw [hlog] at hinput
    refine ⟨c, hinput, ?_⟩
    rw [Machine.runLine, Command.runLine, Machine.logCommand, Machine.debug, Run.run_bind_ok hlog, hok]
    rfl
  unfold tokens? at h
  split at h
  · cases h
    exact ⟨m.console, rfl, rfl⟩
  · cases h
  · next line hslash =>
    obtain ⟨c, hc, hrun⟩ := hline h
    refine ⟨c, hc, ?_⟩
    rw [← hrun, execute, Machine.runQueued]
    exact fun request heq => hslash request heq
  · cases h
  · exact hline h

end Act

namespace Moment

def command? (p : Moment) : Option Command := p.act.tokens?.bind Command.commandOf?

def outcome (p : Moment) : Except Fault Unit × Machine := p.act.execute.run p.machine

/-- A command that is called by its name runs its routine on the machine with at most the line logged. -/
theorem exists_call {p : Moment} {c : Command} (h : p.command? = some c)
    (hnamed : c ≠ .assign ∧ c ≠ .buildString) :
    ∃ tokens console, p.act.tokens? = some tokens ∧ Command.commandOf? tokens = some c ∧
      console.input = p.machine.console.input ∧
      ∀ result after, (c.routine Debugger.hooks).run
          ⟨{ p.machine with console }, Command.argumentsOf tokens⟩ = (result, after) →
        p.outcome = (result, after.machine) := by
  obtain ⟨tokens, htokens, hcommand⟩ := Option.bind_eq_some_iff.mp h
  obtain ⟨console, hinput, hrun⟩ := Act.run_execute htokens p.machine
  refine ⟨tokens, console, htokens, hcommand, hinput, fun result after hroutine => hrun.trans ?_⟩
  cases tokens with
  | nil => cases hcommand
  | cons t ts =>
    cases t with
    | numericVar name => exact absurd (Option.some.inj hcommand).symm hnamed.1
    | stringVar name => exact absurd (Option.some.inj hcommand).symm hnamed.2
    | word w =>
      exact Command.run_withArguments ((Command.run_dispatch_command _ _ hcommand ts).trans hroutine)
    | _ => cases hcommand

end Moment

/-- Lines that are typed are used up, so what holds of all of them goes on holding. -/
theorem Machine.Types.outcome {p : Moment} (h : p.machine.Types P) :
    p.outcome.2.Types P := by
  have hspares (tokens : List Token) : Command.Spares (fun _ => ()) tokens := fun _ _ _ _ _ => rfl
  have hkeeps : Keeps (Frame.holding (fun _ => ()) P) p.act.execute :=
    Act.keeps_execute (fun tokens _ => hspares tokens) (fun tokens _ => hspares tokens)
      fun _ _ _ _ => rfl
  exact (hkeeps p.machine h).1

namespace Machine

variable {n : Nat} {m : Machine} {before after : List Moment}

/-- A command with notes behind it did not fail. -/
theorem outcome_of_later {p : Moment} (h : m.moments n = before ++ p :: after) (hlater : after ≠ [])
    (hcommand : p.act ≠ .fetch) : ∃ k, p.outcome = (.ok (), k) := by
  obtain ⟨k₀, n', earlier, later, -, -, -, hmoments, rfl⟩ := exists_turn_of_moments h
  have hgoes := Recording.goes k₀
  rw [hmoments] at hgoes
  rcases hgoes.pending_or_behind with ⟨tokens, -, rfl, hrest⟩ | ⟨k₁, l, -, -, -, hrest⟩
  · rcases hrun : (runTokens tokens).run k₀ with ⟨r, k⟩
    rw [hrun] at hrest
    cases r with
    | error e =>
      rw [hrest.1, hrest.2] at hlater
      exact absurd rfl hlater
    | ok u => exact ⟨k, hrun⟩
  · obtain ⟨rfl, hr, -⟩ := hrest.command_last hcommand
    rcases hrun : p.outcome with ⟨r, k⟩
    cases r with
    | error e =>
      rw [hr, ← Moment.outcome, hrun] at hlater
      exact absurd rfl hlater
    | ok u => exact ⟨k, rfl⟩

/-- A line of the program is run as soon as it is found. -/
theorem exists_fetch_of_stored {k : Machine} {line : Text}
    (h : m.moments n = before ++ ⟨k, .stored line⟩ :: after) :
    ∃ front f, before = front ++ [⟨f, .fetch⟩] ∧ nextProgramLine.run f = (.ok (some line), k) := by
  obtain ⟨k₀, n', earlier, later, -, -, hearlier, hmoments, -⟩ := exists_turn_of_moments h
  have hgoes := Recording.goes k₀
  rw [hmoments] at hgoes
  rcases hgoes.pending_or_behind with ⟨tokens, -, heq, -⟩ | ⟨k₁, l, -, -, hl, hrest⟩
  · cases heq
  · obtain ⟨-, -, ⟨_, _, -, heq⟩ | ⟨_, _, -, -, rfl, hfound, heq⟩⟩ := hrest.command_last (by simp)
    · cases heq
    · cases heq
      obtain ⟨front, hfront⟩ := hl.trans hearlier
      exact ⟨front, k₁, hfront.symm, hfound⟩

end Machine

/-- What each act makes of a view of the machine while the invariant holds. Nothing else that happens in a
turn touches the view. -/
structure Tracks (inv : Machine → Prop) (view : Machine → α) (step : α → Moment → α) : Prop where
  act : ∀ p : Moment, inv p.machine → inv p.outcome.2 ∧ view p.outcome.2 = step (view p.machine) p
  exit : Keeps (Frame.observing inv view) Debugger.onExit
  aside : ∀ (m : Machine) queue running screen pending, (Frame.observing inv view).allows m
    { m with queue, running, screen, control := { m.control with pending } }

/-- The view at each of the notes and at the end is what the notes in front of it make of `x`. -/
def Follows (inv : Machine → Prop) (view : Machine → α) (step : α → Moment → α) :
    α → List Moment → Machine → Prop
  | x, [], m => inv m ∧ view m = x
  | x, p :: l, m => (inv p.machine ∧ view p.machine = x) ∧ Follows inv view step (step x p) l m

variable {inv : Machine → Prop} {view : Machine → α} {step : α → Moment → α}

namespace Follows

variable {x : α} {l l' : List Moment} {m k : Machine}

theorem final (h : Follows inv view step x l m) : inv m ∧ view m = l.foldl step x := by
  induction l generalizing x with
  | nil => exact h
  | cons p l ih => exact ih h.2

theorem at_note {before after : List Moment} {p : Moment}
    (h : Follows inv view step x (before ++ p :: after) m) :
    inv p.machine ∧ view p.machine = before.foldl step x := by
  induction before generalizing x with
  | nil => exact h.1
  | cons q before ih => exact ih h.2

theorem append (h : Follows inv view step x l k) (h' : Follows inv view step (view k) l' m) :
    Follows inv view step x (l ++ l') m := by
  induction l generalizing x with
  | nil => rwa [← h.2]
  | cons p l ih => exact ⟨h.1, ih h.2⟩

end Follows

namespace Machine

theorem runTurns_succ_snd (n : Nat) (m : Machine) :
    (m.runTurns (n + 1)).2 =
      if m.isDone then m.finish.2
      else match turn.run m with
        | (.error _, m') => m'.halt
        | (.ok _, m') => if !m'.isDone && m'.isIdle then m' else (m'.runTurns n).2 := by
  rw [runTurns]
  split
  · rfl
  · rcases turn.run m with ⟨r, m'⟩
    cases r with
    | error e => rfl
    | ok u =>
      dsimp only
      split <;> rfl

end Machine

namespace Tracks

open Machine (Goes GoesOn)

variable (h : Tracks inv view step)
include h

theorem note {p : Moment} {k : Machine} {r : Except Fault Unit} (hp : inv p.machine)
    (hrun : p.outcome = (r, k)) : Follows inv view step (view p.machine) [p] k := by
  have hact := h.act p hp
  rw [hrun] at hact
  exact ⟨⟨hp, rfl⟩, hact⟩

theorem goesOn {k : Machine} {l : List Moment} {r : Except Fault Unit × Machine} (hgoes : GoesOn k l r)
    (hk : inv k) : Follows inv view step (view k) l r.2 := by
  -- Three of the five pieces begin with a search for the next line.
  have hfetch {found : Except Fault (Option Text)} {k' : Machine}
      (hfound : Machine.nextProgramLine.run k = (found, k')) :
      Follows inv view step (view k) [⟨k, .fetch⟩] k' := by
    have hnote := h.note (p := ⟨k, .fetch⟩) hk rfl
    rcases found with e | line <;>
      simpa [Moment.outcome, Act.execute, Run.run_bind, hfound] using hnote
  cases hgoes with
  | @queued line rest queue =>
    have haside := h.aside k rest k.running k.screen k.control.pending hk
    have hnote := h.note (p := ⟨{ k with queue := rest }, .queued line⟩) haside.1 rfl
    exact ⟨haside, haside.2 ▸ hnote.2⟩
  | stopped => exact ⟨hk, rfl⟩
  | stored queue running found =>
    have hread := hfetch found
    exact hread.append (h.note hread.final.1 rfl)
  | @ended k' queue running found =>
    have hread := hfetch found
    have haside := h.aside k' k'.queue false k'.screen k'.control.pending hread.final.1
    have hexit := h.exit _ haside.1
    have hlast : Follows inv view step (view k') []
        (Debugger.onExit.run { k' with running := false }).2 := ⟨hexit.1, hexit.2.trans haside.2⟩
    exact hread.append hlast
  | unread queue running fault => exact hfetch fault

theorem goes {k : Machine} {l : List Moment} {r : Except Fault Unit × Machine} (hgoes : Goes k l r)
    (hk : inv k) : Follows inv view step (view k) l r.2 := by
  cases hgoes with
  | free pending rest => exact h.goesOn rest hk
  | failed pending fault => exact h.note hk fault
  | @done tokens k' l r pending run rest =>
    have hnote := h.note (p := ⟨k, .pending tokens⟩) hk run
    have hclear := h.aside k' k'.queue k'.running k'.screen none hnote.final.1
    have hrest : Follows inv view step (view k') l r.2 := hclear.2 ▸ h.goesOn rest hclear.1
    exact hnote.append hrest

/-- The view can be followed through a whole run. -/
theorem runTurns (n : Nat) {m : Machine} (hm : inv m) :
    Follows inv view step (view m) (m.moments n) (m.runTurns n).2 := by
  have hfinish {m : Machine} (hm : inv m) : Follows inv view step (view m) [] m.finish.2 :=
    h.aside m m.queue m.running { m.screen with closed := true } m.control.pending hm
  induction n generalizing m with
  | zero =>
    change Follows inv view step (view m) []
      (if m.isDone then m.finish else (⟨.limit, 0, []⟩, m)).2
    split
    · exact hfinish hm
    · exact ⟨hm, rfl⟩
  | succ n ih =>
    rw [Machine.moments_succ, Machine.runTurns_succ_snd]
    split
    · exact hfinish hm
    · have hturn := h.goes (Recording.goes m) hm
      rcases hrun : Machine.turn.run m with ⟨r, m'⟩
      rw [hrun] at hturn
      refine hturn.append ?_
      cases r with
      | error e => exact h.aside m' m'.queue false m'.screen none hturn.final.1
      | ok u =>
        dsimp only [Machine.momentsAfter]
        split
        · exact ⟨hturn.final.1, rfl⟩
        · exact ih hturn.final.1

end Tracks
end BasicMachine
