import BasicMachine.Proofs.Recording

/-! What a turn may change. Beside the lines that it runs, a turn takes a line from the queue, moves the
addresses of the program, and starts or stops it. -/
namespace BasicMachine

open Run (Keeps)
open Machine (GoesOn)

namespace Frame

/-- The frame allows what lines of any kind can do and what a turn does beside them. -/
structure Turning (F : Frame Machine) : Prop extends F.Open where
  course : ∀ m queue running allDone, F.allows m { m with queue, running, allDone }

variable {F : Frame Machine}

theorem Aside.nextProgramLine (hF : F.Aside) : Keeps F Machine.nextProgramLine := by
  intro m
  obtain ⟨a, b, hm⟩ := m.nextProgramLine_snd
  rw [hm]
  exact hF ⟨rfl, .refl _⟩

theorem Open.runPending (hF : F.Open) : Keeps F Machine.runPending := by
  refine .get_bind fun m => ?_
  cases m.control.pending with
  | none => exact .pure ()
  | some tokens =>
    exact (Machine.keeps_runTokens hF tokens).bind fun _ => Machine.keeps_changeControl hF.aside _

namespace Turning

theorem runQueued (hF : F.Turning) (line : Text) : Keeps F (Machine.runQueued line) := by
  unfold Machine.runQueued
  split
  · refine .ite _ (.modify fun m => ?_) (.ite _ (.modify fun m => ?_) (.pure _))
    · exact hF.course m m.queue m.running true
    · exact hF.course m m.queue true m.allDone
  · exact Machine.keeps_runLine hF.toOpen _

theorem execute (hF : F.Turning) (act : Act) : Keeps F act.execute := by
  cases act with
  | pending tokens => exact Machine.keeps_runTokens hF.toOpen tokens
  | queued line => exact hF.runQueued line
  | fetch => exact hF.aside.nextProgramLine.bind fun _ => .pure _
  | stored line => exact Machine.keeps_runLine hF.toOpen line

theorem goesOn (hF : F.Turning) {k : Machine} {l : List Moment} {r : Except Fault Unit × Machine}
    (h : GoesOn k l r) : F.allows k r.2 := by
  have hfetch {found : Except Fault (Option Text)} {k' : Machine}
      (h : Machine.nextProgramLine.run k = (found, k')) : F.allows k k' := by
    have hread := hF.aside.nextProgramLine k
    rwa [h] at hread
  cases h with
  | @queued line rest _ => exact F.trans (hF.course k rest k.running k.allDone) (hF.runQueued _ _)
  | stopped => exact F.refl k
  | stored _ _ found => exact F.trans (hfetch found) (Machine.keeps_runLine hF.toOpen _ _)
  | @ended k' _ _ found =>
    have hexit := (Debugger.keep_hooks hF.toOpen).onExit { k' with running := false }
    exact F.trans (hfetch found) (F.trans (hF.course k' k'.queue false k'.allDone) hexit)
  | unread _ _ fault => exact hfetch fault

theorem turn (hF : F.Turning) : Keeps F Machine.turn := by
  rw [← Recording.action_turn, Recording.turn, Recording.action_bind, Recording.action_runPending]
  exact hF.runPending.bind fun _ k => hF.goesOn (Recording.goesOn k)

end Turning
end Frame
end BasicMachine
