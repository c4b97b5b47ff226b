import BasicMachine.Proofs.CommandLikeness
import BasicMachine.Proofs.Tracking

/-! The debugger on two machines side by side. The prompt reads the lines that are typed, which are the same
on both sides, and prints what it likes. So it does the same on both sides if the commands that are typed
there do. -/
namespace BasicMachine

open Run (Alike Steady)

/-- The same lines are typed on both sides, and what they run has the property. -/
structure SameInput (L : Core → Core → Prop) (P : List Token → Prop) : Prop where
  input : ∀ {c d}, L c d → d.input = c.input
  typed : ∀ {c d}, L c d → ∀ line ∈ c.input, ∀ tokens ∈ Debugger.typedTokens line, P tokens
  take : ∀ {c d}, L c d → ∀ line rest, c.input = line :: rest →
    L { c with input := rest } { d with input := rest }

namespace Debugger

variable {L : Core → Core → Prop} {P : List Token → Prop}

section Prompt

variable {prompt' : Action Unit} (hprompt : Steady (Alongside L) prompt')
include hprompt

theorem steady_enter : Steady (Alongside L) (enter prompt') :=
  Machine.steady_get fun _ _ _ _ _ => .ite _ (.throw _) hprompt

theorem steady_untilFinished (n : Nat) : Steady (Alongside L) (untilFinished prompt' n) := by
  induction n with
  | zero => exact .pure ()
  | succ n ih =>
    apply Machine.steady_get
    intro m core printed logged _
    apply Alike.ite _ (.pure ())
    apply (Machine.steady_type _).bind
    intro _
    apply Alike.bind
    · exact Machine.steady_modify (fun _ => rfl) fun _ _ _ _ => ⟨_, _, rfl⟩
    · exact fun _ => (steady_enter hprompt).bind fun _ => ih

theorem steady_hooksAt (n : Nat) : (hooksAt prompt' n).Steady (Alongside L) where
  onBreak := (Machine.steady_type _).bind fun _ => steady_enter hprompt
  onExit := by
    apply Machine.steady_get
    intro m core printed logged _
    apply Alike.ite _ (steady_untilFinished hprompt _)
    exact Machine.steady_modify (fun _ => rfl) fun _ _ _ _ => ⟨_, _, rfl⟩

end Prompt

theorem alike_typeLines {ι : Type} (f : ι → Text) (items items' : List ι) :
    Alike (Alongside L) (items.forM fun i => Machine.typeLine (f i))
      (items'.forM fun i => Machine.typeLine (f i)) := by
  have hrun (items : List ι) (m : Machine) : ∃ printed,
      (items.forM fun i => Machine.typeLine (f i)).run m =
        (.ok (), { m with console := { m.console with printed } }) := by
    induction items generalizing m with
    | nil => exact ⟨m.console.printed, rfl⟩
    | cons i rest ih =>
      obtain ⟨printed, hrest⟩ := ih
        { m with console := { m.console with printed := (f i ++ ['\n']) :: m.console.printed } }
      exact ⟨printed, hrest⟩
  rintro m n ⟨core, printed, logged, hcore, rfl⟩
  obtain ⟨left, hleft⟩ := hrun items m
  obtain ⟨right, hright⟩ := hrun items' (m.withCore core printed logged)
  rw [hleft, hright]
  exact ⟨rfl, core, right, logged, hcore, rfl⟩

variable (hL : Likeness L)

include hL in
theorem steady_dumpAll : Steady (Alongside L) dumpAll := by
  have hasked {ι α : Type} (ask : ι → Machine → Except Fault α) (f : ι → α → Text) (items : List ι)
      (h : ∀ i m n, Alongside L m n → ask i n = ask i m) :
      Steady (Alongside L) (items.forM fun i => do Machine.typeLine (f i (← Machine.ask (ask i)))) :=
    .forM (fun i => (Machine.steady_ask (h i)).bind fun _ => Machine.steady_type _) items
  apply (hasked _ _ _ fun name _ _ h => hL.numeric h name).bind
  intro _
  apply (hasked _ _ _ fun name _ _ h => hL.string h name).bind
  intro _
  apply (Machine.steady_get fun m core printed logged _ => alike_typeLines _ _ _).bind
  intro _
  exact Machine.steady_get fun m core printed logged _ => alike_typeLines _ _ _

variable (hinput : SameInput L P)
include hinput

theorem steady_askLine : Steady (Alongside L) askLine := by
  apply (Machine.steady_type _).bind
  rintro _ m n ⟨core, printed, logged, hcore, rfl⟩
  have hsame : (m.withCore core printed logged).console.input = m.console.input := hinput.input hcore
  simp only [Run.run_bind, Run.run_get, hsame]
  cases hlines : m.console.input with
  | nil => exact ⟨rfl, core, printed, logged, hcore, rfl⟩
  | cons line rest => exact ⟨rfl, _, printed, logged, hinput.take hcore line rest hlines, rfl⟩

include hL

theorem steady_prompt (hP : ∀ tokens, P tokens → ∀ c ∈ Command.commandOf? tokens, c.Needs L) (n : Nat) :
    Steady (Alongside L) (prompt n) := by
  induction n with
  | zero => exact (steady_askLine hinput).bind fun _ => .pure ()
  | succ n ih =>
    apply (steady_askLine hinput).bind_of
    intro m k line hmk hline
    have htyped : line.head? = some '.' → ∀ tokens, Token.parse (line.drop 1) = .ok tokens → P tokens := by
      intro hdot tokens hparse
      have htokens : tokens ∈ typedTokens line := by
        rw [typedTokens, if_pos hdot, hparse]
        rfl
      exact hinput.typed hmk.core line (mem_input_of_askLine hline) tokens htokens
    have htype (t : Text) : Steady (Alongside L) (do Machine.typeLine t; prompt n) :=
      (Machine.steady_type _).bind fun _ => ih
    apply Alike.ite _ (.pure ())
    apply Alike.ite
    · exact Machine.steady_modify (fun _ => rfl) fun _ _ _ _ => ⟨_, _, rfl⟩
    apply Alike.ite
    · exact Machine.steady_get fun m _ _ _ _ => htype _
    apply Alike.ite
    · exact (steady_dumpAll hL).bind fun _ => ih
    split
    · next hdot =>
      apply Alike.bind _ fun _ => ih
      exact Command.steady_runLine hL (steady_hooksAt ih n) fun tokens hparse =>
        hP tokens (htyped hdot tokens hparse)
    · exact htype _

/-- The debugger does the same on both sides if the lines typed at its prompt do. -/
theorem steady_hooks (hP : ∀ tokens, P tokens → ∀ c ∈ Command.commandOf? tokens, c.Needs L) :
    hooks.Steady (Alongside L) := by
  have hleft : Steady (Alongside L) linesLeft := by
    rintro m n ⟨core, printed, logged, hcore, rfl⟩
    have hsame : core.input = m.console.input := hinput.input hcore
    have hlength : linesLeft.run (m.withCore core printed logged) =
      (.ok core.input.length, m.withCore core printed logged) := rfl
    rw [hlength, hsame]
    exact ⟨rfl, core, printed, logged, hcore, rfl⟩
  constructor
  · exact hleft.bind fun n => (steady_hooksAt (steady_prompt hL hinput hP n) n).onBreak
  · exact hleft.bind fun n => (steady_hooksAt (steady_prompt hL hinput hP n) n).onExit

end Debugger
end BasicMachine
