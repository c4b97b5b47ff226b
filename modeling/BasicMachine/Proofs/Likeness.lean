import BasicMachine.Proofs.StraightLine

/-! Two machines side by side. Steps are alike if from related states they come to the same result, a value
or a fault, with related states behind them. Machines go along with each other if they agree in all but
what they have printed and a core, and their cores are related. What is printed cannot be read back, so
printing, waiting for keys and showing dialogs keep any such relation, and so does taking arguments that
have the same value on both sides. -/
namespace BasicMachine

namespace Run

variable {σ α β : Type}

/-- From related states both steps come to the same result and to related states. -/
def Alike (R : σ → σ → Prop) (x y : Run σ α) : Prop :=
  ∀ s t, R s t → (x.run s).1 = (y.run t).1 ∧ R (x.run s).2 (y.run t).2

/-- The step does the same on both sides. -/
abbrev Steady (R : σ → σ → Prop) (x : Run σ α) : Prop := Alike R x x

/-- From these two states both steps come to the same result and to related states. -/
def AlikeAt (R : σ → σ → Prop) (x y : Run σ α) (s t : σ) : Prop :=
  (x.run s).1 = (y.run t).1 ∧ R (x.run s).2 (y.run t).2

theorem AlikeAt.bind_of {R : σ → σ → Prop} {x y : Run σ α} {f g : α → Run σ β} {s t : σ}
    (hx : AlikeAt R x y s t) (hf : ∀ a, (x.run s).1 = .ok a → Alike R (f a) (g a)) :
    AlikeAt R (x >>= f) (y >>= g) s t := by
  obtain ⟨hresult, hstates⟩ := hx
  unfold AlikeAt
  rcases hleft : x.run s with ⟨r, s'⟩
  rcases hright : y.run t with ⟨r', t'⟩
  rw [hleft, hright] at hresult hstates
  obtain rfl : r = r' := hresult
  cases r with
  | error e =>
    rw [run_bind_error hleft, run_bind_error hright]
    exact ⟨rfl, hstates⟩
  | ok a =>
    rw [run_bind_ok hleft, run_bind_ok hright]
    exact hf a (by rw [hleft]) s' t' hstates

protected theorem AlikeAt.bind {R : σ → σ → Prop} {x y : Run σ α} {f g : α → Run σ β} {s t : σ}
    (hx : AlikeAt R x y s t) (hf : ∀ a, Alike R (f a) (g a)) : AlikeAt R (x >>= f) (y >>= g) s t :=
  hx.bind_of fun a _ => hf a

namespace Alike

variable {R : σ → σ → Prop}

protected theorem pure (a : α) : Steady R (pure a : Run σ α) := fun _ _ h => ⟨rfl, h⟩

protected theorem throw (e : Fault) : Steady R (throw e : Run σ α) := fun _ _ h => ⟨rfl, h⟩

protected theorem ofExcept (r : Except Fault α) : Steady R (ofExcept r : Run σ α) :=
  fun _ _ h => ⟨rfl, h⟩

theorem bind_of {x y : Run σ α} {f g : α → Run σ β} (hx : Alike R x y)
    (hf : ∀ s t a, R s t → (x.run s).1 = .ok a → Alike R (f a) (g a)) :
    Alike R (x >>= f) (y >>= g) := by
  intro s t h
  have hfirst : AlikeAt R x y s t := hx s t h
  exact hfirst.bind_of fun a ha => hf s t a h ha

protected theorem bind {x y : Run σ α} {f g : α → Run σ β} (hx : Alike R x y)
    (hf : ∀ a, Alike R (f a) (g a)) : Alike R (x >>= f) (y >>= g) :=
  hx.bind_of fun _ _ a _ _ => hf a

protected theorem map {x y : Run σ α} (f : α → β) (hx : Alike R x y) : Alike R (f <$> x) (f <$> y) := by
  rw [map_eq_pure_bind, map_eq_pure_bind]
  exact hx.bind fun a => .pure (f a)

theorem get_bind {f g : σ → Run σ α} (h : ∀ s t, R s t → Alike R (f s) (g t)) :
    Alike R (get >>= f) (get >>= g) := fun s t hst => h s t hst s t hst

protected theorem modify {f g : σ → σ} (h : ∀ s t, R s t → R (f s) (g t)) :
    Alike R (modify f : Run σ PUnit) (modify g : Run σ PUnit) := fun s t hst => ⟨rfl, h s t hst⟩

protected theorem ite {x y x' y' : Run σ α} (p : Prop) [Decidable p] (hx : Alike R x x')
    (hy : Alike R y y') : Alike R (if p then x else y) (if p then x' else y') := by
  split
  · exact hx
  · exact hy

protected theorem tryCatch {x y : Run σ α} {h h' : Fault → Run σ α} (hx : Alike R x y)
    (hh : ∀ e, Alike R (h e) (h' e)) : Alike R (tryCatch x h) (tryCatch y h') := by
  intro s t hst
  obtain ⟨hresult, hstates⟩ := hx s t hst
  rw [run_tryCatch, run_tryCatch]
  rcases hleft : x.run s with ⟨r, s'⟩
  rcases hright : y.run t with ⟨r', t'⟩
  rw [hleft, hright] at hresult hstates
  obtain rfl : r = r' := hresult
  cases r with
  | ok a => exact ⟨rfl, hstates⟩
  | error e => exact hh e s' t' hstates

protected theorem forM {ι : Type} {f g : ι → Run σ Unit} (h : ∀ i, Alike R (f i) (g i))
    (items : List ι) : Alike R (items.forM f) (items.forM g) := by
  induction items with
  | nil => exact .pure ()
  | cons i rest ih => exact (h i).bind fun _ => ih

end Alike
end Run

open Run (Alike AlikeAt Steady)

/-- The part of a machine that its programs work on and are run by, and the lines still to be typed. -/
structure Core where
  memory : Memory
  settings : List (Text × Int)
  control : Control
  input : List Text

namespace Machine

def core (m : Machine) : Core := ⟨m.memory, m.settings, m.control, m.console.input⟩

/-- The machine with another core and another output. -/
def withCore (m : Machine) (c : Core) (printed : List Text) (logged : List LogEntry) : Machine :=
  { m with
    memory := c.memory
    settings := c.settings
    control := c.control
    console := { input := c.input, printed, logged } }

end Machine

/-- The machines agree in all but the core and the output, and their cores are related. -/
def Alongside (L : Core → Core → Prop) (m n : Machine) : Prop :=
  ∃ core printed logged, L m.core core ∧ n = m.withCore core printed logged

namespace Alongside

variable {L : Core → Core → Prop} {m n : Machine}

theorem core (h : Alongside L m n) : L m.core n.core := by
  obtain ⟨core, printed, logged, hcore, rfl⟩ := h
  exact hcore

end Alongside

/-- A command reads the same in both tokens, unless it reads a label. -/
inductive Token.ReadAlike : Token → Token → Prop
  | same (t : Token) : ReadAlike t t
  | word {v w : Text} (letters : upper v = upper w) (keyword : Keyword.ofName? v = Keyword.ofName? w) :
    ReadAlike (.word v) (.word w)

/-- From a place on, the same is read in both lists of tokens. -/
structure ReadAlikeFrom (k : Nat) (ts us : List Token) : Prop where
  length : us.length = ts.length
  tokens : ∀ i, k ≤ i → ∀ t u, ts[i]? = some t → us[i]? = some u → t.ReadAlike u

namespace ReadAlikeFrom

variable {k : Nat} {ts us : List Token}

protected theorem refl (k : Nat) (ts : List Token) : ReadAlikeFrom k ts ts where
  length := rfl
  tokens i _ t u ht hu := by
    obtain rfl : t = u := Option.some.inj (ht.symm.trans hu)
    exact .same t

theorem succ (h : ReadAlikeFrom k ts us) : ReadAlikeFrom (k + 1) ts us :=
  ⟨h.length, fun i hi => h.tokens i (by omega)⟩

theorem current (h : ReadAlikeFrom k ts us) :
    (∃ t u, t.ReadAlike u ∧ Arguments.current ⟨ts, k⟩ = .ok (some t) ∧
      Arguments.current ⟨us, k⟩ = .ok (some u)) ∨
    ∃ r, (∀ t, r ≠ .ok (some t)) ∧ Arguments.current ⟨ts, k⟩ = r ∧ Arguments.current ⟨us, k⟩ = r := by
  have hlength := h.length
  by_cases hinside : k < ts.length
  · by_cases hlimit : (k : Int) < indexLimit
    · have hleft : Arguments.Has ts k ts[k] := ⟨by omega, hlimit, by simp⟩
      have hright : Arguments.Has us k us[k] := ⟨by omega, hlimit, by simp⟩
      exact .inl ⟨_, _, h.tokens k (Nat.le_refl k) _ _ hleft.item hright.item, hleft.current, hright.current⟩
    · have hhuge (l : List Token) (hl : k < l.length) : Arguments.current ⟨l, k⟩ = .error .hugeIndex := by
        have hmore : Arguments.hasMore ⟨l, k⟩ = true := by simp [Arguments.hasMore, hl]
        have hfar : (k : Int) < -indexLimit ∨ indexLimit ≤ (k : Int) := by omega
        rw [Arguments.current, if_pos hmore, place, if_pos hfar]
        rfl
      exact .inr ⟨_, by simp, hhuge ts hinside, hhuge us (by omega)⟩
  · have hnone (l : List Token) (hl : ¬k < l.length) : Arguments.current ⟨l, k⟩ = .ok none := by
      have hmore : ¬Arguments.hasMore ⟨l, k⟩ = true := by simpa [Arguments.hasMore] using hl
      rw [Arguments.current, if_neg hmore]
    exact .inr ⟨_, by simp, hnone ts hinside, hnone us (by omega)⟩

end ReadAlikeFrom

/-- Calls at the same place in arguments that are read alike from there on, on machines that go along with
each other. -/
structure CallAlongside (L : Core → Core → Prop) (ts us : List Token) (c d : Call) : Prop where
  machine : Alongside L c.machine d.machine
  args : ∃ k : Nat, c.args = ⟨ts, k⟩ ∧ d.args = ⟨us, k⟩ ∧ ReadAlikeFrom k ts us

namespace Call

variable {L : Core → Core → Prop} {ts us : List Token} {α : Type}

theorem alike_onMachine {x y : Action α} (h : Alike (Alongside L) x y) :
    Alike (CallAlongside L ts us) (onMachine x) (onMachine y) := by
  intro c d hcall
  have hmachine := h c.machine d.machine hcall.machine
  exact ⟨hmachine.1, hmachine.2, hcall.args⟩

theorem steady_get {f : Call → Run Call α}
    (h : ∀ m (k : Nat) core printed logged, L m.core core →
      Alike (CallAlongside L ts us) (f ⟨m, ⟨ts, k⟩⟩) (f ⟨m.withCore core printed logged, ⟨us, k⟩⟩)) :
    Steady (CallAlongside L ts us) (get >>= f) := by
  apply Alike.get_bind
  rintro ⟨m, args⟩ ⟨n, args'⟩ ⟨⟨core, printed, logged, hcore, hn⟩, k, hleft, hright, -⟩
  obtain rfl : args = ⟨ts, k⟩ := hleft
  obtain rfl : args' = ⟨us, k⟩ := hright
  obtain rfl : n = m.withCore core printed logged := hn
  exact h m k core printed logged hcore

theorem steady_args {f : Arguments → Run Call α}
    (h : ∀ k : Nat, us.length = ts.length → Alike (CallAlongside L ts us) (f ⟨ts, k⟩) (f ⟨us, k⟩)) :
    Steady (CallAlongside L ts us) (get >>= fun c => f c.args) := by
  apply Alike.get_bind
  rintro c d ⟨-, k, hleft, hright, halike⟩
  rw [hleft, hright]
  exact h k halike.length

theorem steady_hasAny : Steady (CallAlongside L ts us) hasAny := by
  apply steady_args (f := fun a => pure a.hasMore)
  intro k hlength
  simp only [Arguments.hasMore, hlength]
  exact .pure _

theorem steady_expectArguments (n : Int) : Steady (CallAlongside L ts us) (expectArguments n) := by
  apply steady_args (f := fun a => if a.index + n > a.tokens.length then throw .notEnoughArguments else pure ())
  intro k hlength
  simp only [hlength]
  exact .ite _ (.throw _) (.pure _)

theorem steady_argumentsLeft : Steady (CallAlongside L ts us) argumentsLeft := by
  apply steady_args (f := fun a => pure (a.tokens.length - a.index).toNat)
  intro k hlength
  simp only [hlength]
  exact .pure _

theorem alikeAt_nextAs {read : Machine → Token → Except Fault α} {c d : Call} (hcd : CallAlongside L ts us c d)
    (h : ∀ t u, c.args.current = .ok (some t) → d.args.current = .ok (some u) → t.ReadAlike u →
      read d.machine u = read c.machine t) :
    AlikeAt (CallAlongside L ts us) (nextAs read) (nextAs read) c d := by
  obtain ⟨m, args⟩ := c
  obtain ⟨n, args'⟩ := d
  obtain ⟨hmachine, k, rfl, rfl, halike⟩ := hcd
  unfold AlikeAt
  rw [run_nextAs_current, run_nextAs_current]
  rcases halike.current with ⟨t, u, htu, ht, hu⟩ | ⟨r, hr, ht, hu⟩
  · rw [ht, hu]
    exact ⟨(h t u ht hu htu).symm, hmachine, k + 1, rfl, rfl, halike.succ⟩
  · rw [ht, hu]
    rcases r with e | _ | t
    · exact ⟨rfl, hmachine, k, rfl, rfl, halike⟩
    · exact ⟨rfl, hmachine, k, rfl, rfl, halike⟩
    · exact absurd rfl (hr t)

theorem steady_nextAs {read : Machine → Token → Except Fault α}
    (h : ∀ m n t u, Alongside L m n → Token.ReadAlike t u → read n u = read m t) :
    Steady (CallAlongside L ts us) (nextAs read) :=
  fun _ _ hcd => alikeAt_nextAs hcd fun t u _ _ htu => h _ _ t u hcd.machine htu

theorem steady_nextOf {read : Token → Except Fault α}
    (h : ∀ v w, upper v = upper w → read (.word w) = read (.word v)) :
    Steady (CallAlongside L ts us) (nextAs fun _ => read) := by
  apply steady_nextAs
  rintro m n t u - (_ | ⟨letters, -⟩)
  · rfl
  · exact h _ _ letters

theorem steady_nextNumericVar : Steady (CallAlongside L ts us) nextNumericVar := steady_nextOf fun _ _ _ => rfl

theorem steady_nextStringVar : Steady (CallAlongside L ts us) nextStringVar := steady_nextOf fun _ _ _ => rfl

theorem steady_nextSymbol : Steady (CallAlongside L ts us) nextSymbol := steady_nextOf fun _ _ _ => rfl

theorem steady_nextWord : Steady (CallAlongside L ts us) nextWord :=
  steady_nextOf fun _ _ h => congrArg Except.ok h.symm

theorem steady_nextSymbolIs (wanted : Text) : Steady (CallAlongside L ts us) (nextSymbolIs wanted) :=
  steady_nextSymbol.bind fun _ => .ite _ (.pure _) (.throw _)

theorem steady_nextSymbolOf (wanted : List Text) : Steady (CallAlongside L ts us) (nextSymbolOf wanted) :=
  steady_nextSymbol.bind fun _ => .ite _ (.pure _) (.throw _)

theorem steady_nextWordIs (wanted : Text) : Steady (CallAlongside L ts us) (nextWordIs wanted) :=
  steady_nextWord.bind fun _ => .ite _ (.pure _) (.throw _)

theorem steady_nextWordOf (wanted : List Text) : Steady (CallAlongside L ts us) (nextWordOf wanted) :=
  steady_nextWord.bind fun _ => .ite _ (.pure _) (.throw _)

/-- What follows a look at the next argument need only be alike for two that are read alike. -/
theorem steady_look_bind {f : Option Token → Run Call α} (hnone : Steady (CallAlongside L ts us) (f none))
    (hsome : ∀ t u, Token.ReadAlike t u → Alike (CallAlongside L ts us) (f (some t)) (f (some u))) :
    Steady (CallAlongside L ts us) (look >>= f) := by
  rintro ⟨m, args⟩ ⟨n, args'⟩ hcd
  obtain ⟨hmachine, k, rfl, rfl, halike⟩ := hcd
  have hlook (c : Call) : look.run c = (c.args.current, c) := by simp [look, Run.run_bind]
  have hhere : CallAlongside L ts us ⟨m, ⟨ts, k⟩⟩ ⟨n, ⟨us, k⟩⟩ := ⟨hmachine, k, rfl, rfl, halike⟩
  rcases halike.current with ⟨t, u, htu, ht, hu⟩ | ⟨r, hr, ht, hu⟩
  · have hleft := hlook ⟨m, ⟨ts, k⟩⟩
    have hright := hlook ⟨n, ⟨us, k⟩⟩
    rw [ht] at hleft
    rw [hu] at hright
    rw [Run.run_bind_ok hleft, Run.run_bind_ok hright]
    exact hsome t u htu _ _ hhere
  · have hboth : AlikeAt (CallAlongside L ts us) look look ⟨m, ⟨ts, k⟩⟩ ⟨n, ⟨us, k⟩⟩ := by
      unfold AlikeAt
      rw [hlook, hlook]
      exact ⟨ht.trans hu.symm, hhere⟩
    refine hboth.bind_of fun found hfound => ?_
    rw [hlook] at hfound
    cases found with
    | none => exact hnone
    | some t => exact absurd (ht.symm.trans hfound) (hr t)

theorem steady_has {p : Token → Bool}
    (h : ∀ v w, Keyword.ofName? v = Keyword.ofName? w → p (.word w) = p (.word v)) :
    Steady (CallAlongside L ts us) (has p) := by
  apply steady_look_bind
  · exact .pure _
  rintro t u (_ | ⟨-, keyword⟩)
  · exact .pure _
  · simp only [Option.map_some, h _ _ keyword]
    exact .pure _

theorem steady_hasString : Steady (CallAlongside L ts us) hasString := steady_has fun _ _ _ => rfl

theorem steady_hasNumericVar : Steady (CallAlongside L ts us) hasNumericVar := steady_has fun _ _ _ => rfl

theorem steady_hasStringVar : Steady (CallAlongside L ts us) hasStringVar := steady_has fun _ _ _ => rfl

theorem steady_hasWord : Steady (CallAlongside L ts us) hasWord := steady_has fun _ _ _ => rfl

theorem steady_hasSymbol : Steady (CallAlongside L ts us) hasSymbol := steady_has fun _ _ _ => rfl

theorem steady_hasNumeric : Steady (CallAlongside L ts us) hasNumeric :=
  steady_has fun _ _ h => by simp only [Token.isNumeric, h]

theorem steady_hasSymbolIs (wanted : Text) : Steady (CallAlongside L ts us) (hasSymbolIs wanted) := by
  apply steady_look_bind
  · exact .pure _
  rintro t u (_ | _)
  · exact (Alike.ofExcept _).bind fun _ => .pure _
  · exact (Alike.ofExcept _).bind fun _ => .pure _

theorem steady_hasWordIs (wanted : Text) : Steady (CallAlongside L ts us) (hasWordIs wanted) := by
  apply steady_look_bind
  · exact .pure _
  rintro t u (_ | ⟨letters, -⟩)
  · exact (Alike.ofExcept _).bind fun _ => .pure _
  · simp only [Token.toWord, letters]
    exact (Alike.ofExcept _).bind fun _ => .pure _

end Call

namespace Machine

variable {L : Core → Core → Prop}

theorem steady_get {α : Type} {f : Machine → Action α}
    (h : ∀ m core printed logged, L m.core core →
      Alike (Alongside L) (f m) (f (m.withCore core printed logged))) :
    Steady (Alongside L) (get >>= f) := by
  apply Alike.get_bind
  rintro m n ⟨core, printed, logged, hcore, rfl⟩
  exact h m core printed logged hcore

theorem steady_ask {α : Type} {f : Machine → Except Fault α}
    (h : ∀ m n, Alongside L m n → f n = f m) : Steady (Alongside L) (ask f) := by
  intro m n hmn
  exact ⟨(h m n hmn).symm, hmn⟩

theorem steady_modify {f : Machine → Machine} (hcore : ∀ m, (f m).core = m.core)
    (h : ∀ m core printed logged, ∃ printed' logged',
      f (m.withCore core printed logged) = (f m).withCore core printed' logged') :
    Steady (Alongside L) (modify f) := by
  apply Alike.modify
  rintro m n ⟨core, printed, logged, hL, rfl⟩
  obtain ⟨printed', logged', heq⟩ := h m core printed logged
  exact ⟨core, printed', logged', by rwa [hcore], heq⟩

theorem steady_changeScreen (f : Screen → Screen) : Steady (Alongside L) (changeScreen f) :=
  steady_modify (fun _ => rfl) fun _ _ _ _ => ⟨_, _, rfl⟩

theorem steady_showCursor (on : Bool) : Steady (Alongside L) (showCursor on) := steady_changeScreen _

theorem steady_onScreen {α : Type} (x : Run Screen α) : Steady (Alongside L) (onScreen x) := by
  rintro m n ⟨core, printed, logged, hcore, rfl⟩
  exact ⟨rfl, core, printed, logged, hcore, rfl⟩

theorem steady_onDisk {α : Type} (x : Run Disk α) : Steady (Alongside L) (onDisk x) := by
  rintro m n ⟨core, printed, logged, hcore, rfl⟩
  exact ⟨rfl, core, printed, logged, hcore, rfl⟩

theorem steady_type (t : Text) : Steady (Alongside L) (type t) :=
  steady_modify (fun _ => rfl) fun _ _ _ _ => ⟨_, _, rfl⟩

theorem steady_record (level : LogLevel) (t : Text) : Steady (Alongside L) (record level t) :=
  steady_modify (fun _ => rfl) fun _ _ _ _ => ⟨_, _, rfl⟩

theorem steady_report (level : LogLevel) (kind t : Text) :
    Steady (Alongside L) (report level kind t) := by
  apply steady_get
  intro m core printed logged _
  have hshow : Steady (Alongside L) (if m.debugger.shownTypes.contains kind then
      typeLine (kind ++ ": ".toList ++ t) else pure () : Action Unit) :=
    .ite _ (steady_type _) (.pure _)
  exact .ite _ ((steady_record _ _).bind fun _ => hshow) hshow

theorem steady_reportError (kind t : Text) : Steady (Alongside L) (reportError kind t) :=
  (steady_record _ _).bind fun _ => steady_type _

theorem steady_logPrint (t : Text) : Steady (Alongside L) (logPrint t) := by
  have hlog : Steady (Alongside L) (do
      debug "PRINT".toList t
      changeDebugger fun d => { d with lastPrint := t }) :=
    (steady_report _ _ _).bind fun _ => steady_modify (fun _ => rfl) fun _ _ _ _ => ⟨_, _, rfl⟩
  apply steady_get
  intro m core printed logged _
  exact .ite _ ((steady_type _).bind fun _ => hlog) hlog

theorem steady_printIn (colour : ColourPair) (t : Text) : Steady (Alongside L) (printIn colour t) :=
  (steady_logPrint t).bind fun _ => steady_changeScreen _

theorem steady_print (t : Text) : Steady (Alongside L) (print t) :=
  (steady_logPrint t).bind fun _ => steady_changeScreen _

theorem steady_delay (tenths : Int) : Steady (Alongside L) (delay tenths) := by
  apply (Alike.ofExcept _).bind
  intro n
  apply Alike.ite _ (.pure _)
  apply steady_get
  intro m core printed logged _
  have hsleep (n : Nat) :
      Steady (Alongside L) (modify fun m => { m with sleeps := m.sleeps + n } : Action Unit) :=
    steady_modify (fun _ => rfl) fun _ _ _ _ => ⟨_, _, rfl⟩
  exact .ite _ ((hsleep 1).bind fun _ => .throw _) (hsleep n)

theorem steady_setKeys (keys : List Int) :
    Steady (Alongside L) (modify fun m => { m with keys } : Action Unit) :=
  steady_modify (fun _ => rfl) fun _ _ _ _ => ⟨_, _, rfl⟩

theorem steady_waitKeyIn (keys : List Int) : Steady (Alongside L) (waitKeyIn keys) := by
  induction keys with
  | nil => exact (steady_setKeys []).bind fun _ => (steady_changeScreen _).bind fun _ => .throw _
  | cons k rest ih =>
    apply (steady_setKeys rest).bind
    intro _
    apply steady_get
    intro m core printed logged _
    exact .ite _ (.throw _) (.ite _ ih (.pure _))

theorem steady_waitKey : Steady (Alongside L) waitKey := steady_get fun m _ _ _ _ => steady_waitKeyIn m.keys

theorem steady_pollKey : Steady (Alongside L) pollKey := by
  rintro m n ⟨core, printed, logged, hcore, rfl⟩
  have hrun (k : Machine) : pollKey.run k =
      (if k.screen.closed then .error .closed else .ok (k.keys.headD 0),
        { k with keys := k.keys.tail }) := by
    simp only [pollKey, Run.run_bind, Run.run_get, Run.run_set]
    split <;> rfl
  rw [hrun, hrun]
  exact ⟨rfl, core, printed, logged, hcore, rfl⟩

theorem steady_readTyped (typed : Text) (n : Nat) : Steady (Alongside L) (readTyped typed n) := by
  induction n generalizing typed with
  | zero => exact steady_waitKey.bind fun _ => .pure _
  | succ n ih =>
    apply steady_waitKey.bind
    intro k
    apply Alike.ite _ (.pure _)
    apply (Alike.ofExcept _).bind
    intro c
    exact .ite _ ((steady_print _).bind fun _ => ih _) (ih _)

theorem steady_readText (prompt : Text) : Steady (Alongside L) (readText prompt) := by
  have htyped : Steady (Alongside L) (do
      let t ← readTyped [] (← get).keys.length
      newline
      return t) :=
    steady_get fun m _ _ _ _ => (steady_readTyped [] m.keys.length).bind fun _ =>
      (steady_changeScreen _).bind fun _ => .pure _
  exact .ite _ ((steady_print _).bind fun _ => htyped) htyped

theorem steady_roll (low high : Int) : Steady (Alongside L) (roll low high) := by
  apply Alike.ite _ (.throw _)
  rintro m n ⟨core, printed, logged, hcore, rfl⟩
  have hdice : (m.withCore core printed logged).dice = m.dice := rfl
  simp only [Run.run_bind, Run.run_get, hdice]
  cases m.dice with
  | nil => exact ⟨rfl, core, printed, logged, hcore, rfl⟩
  | cons r rest => exact ⟨rfl, core, printed, logged, hcore, rfl⟩

end Machine

namespace Dialog

open Display

/-- The steps of a display do the same on both sides. -/
structure Mirrored {δ : Type} [Display δ] (R : δ → δ → Prop) : Prop where
  hideCursor : Steady R (hideCursor : Run δ Unit)
  showCursor : Steady R (showCursor : Run δ Unit)
  moveCursor : ∀ p, Steady R (moveCursor p : Run δ Unit)
  printIn : ∀ c t, Steady R (printIn c t : Run δ Unit)
  fillArea : ∀ a c, Steady R (fillArea a c : Run δ Unit)
  waitKey : Steady R (waitKey : Run δ Int)
  keysReady : Steady R (keysReady : Run δ Nat)
  colour : ∀ name, Steady R (colour name : Run δ ColourPair)

variable {δ : Type} [Display δ] {R : δ → δ → Prop} (hR : Mirrored R)
include hR

theorem steady_waitEnter (n : Nat) : Steady R (waitEnter n : Run δ Unit) := by
  induction n with
  | zero => exact hR.waitKey.bind fun _ => .pure _
  | succ n ih => exact hR.waitKey.bind fun _ => .ite _ (.pure _) ih

theorem steady_alert (message : Text) : Steady R (alert message : Run δ Unit) :=
  (hR.colour _).bind fun _ => (hR.colour _).bind fun _ => hR.hideCursor.bind fun _ =>
    (hR.fillArea _ _).bind fun _ => (hR.moveCursor _).bind fun _ => (hR.printIn _ _).bind fun _ =>
    (hR.moveCursor _).bind fun _ => (hR.printIn _ _).bind fun _ => hR.keysReady.bind fun n =>
    (steady_waitEnter hR n).bind fun _ => hR.showCursor

namespace Listbox

theorem steady_drawItems (b : Listbox) (c : Colours) (i : Nat) (items : List Text) :
    Steady R (drawItems b c i items : Run δ Unit) := by
  induction items generalizing i with
  | nil => exact .pure ()
  | cons item rest ih =>
    exact (hR.moveCursor _).bind fun _ => (hR.printIn _ _).bind fun _ => ih _

theorem steady_draw (b : Listbox) (c : Colours) : Steady R (b.draw c : Run δ Unit) :=
  (hR.fillArea _ _).bind fun _ => (hR.fillArea _ _).bind fun _ => (hR.moveCursor _).bind fun _ =>
    (hR.printIn _ _).bind fun _ => (hR.moveCursor _).bind fun _ => (hR.printIn _ _).bind fun _ =>
    steady_drawItems hR b c 0 b.visible

theorem steady_follow (c : Colours) (b : Listbox) (n : Nat) : Steady R (follow c b n : Run δ Nat) := by
  induction n generalizing b with
  | zero => exact hR.waitKey.bind fun _ => .pure _
  | succ n ih =>
    apply hR.waitKey.bind
    intro k
    apply Alike.ite
    · exact (steady_draw hR _ c).bind fun _ => ih _
    apply Alike.ite
    · exact (steady_draw hR _ c).bind fun _ => ih _
    exact .ite _ (.pure _) (.ite _ (.pure _) (ih b))

end Listbox

theorem steady_choose (items : List Text) (prompt1 prompt2 : Text) :
    Steady R (choose items prompt1 prompt2 : Run δ Nat) :=
  (hR.colour _).bind fun _ => (hR.colour _).bind fun _ => (hR.colour _).bind fun _ =>
    hR.hideCursor.bind fun _ => (Listbox.steady_draw hR _ _).bind fun _ => hR.keysReady.bind fun n =>
    Listbox.steady_follow hR _ _ n

end Dialog

/-- Dialogs look at the screen, the keys and the palette, which both machines share. -/
theorem Alongside.mirrored (L : Core → Core → Prop) : Dialog.Mirrored (Alongside L) where
  hideCursor := Machine.steady_showCursor false
  showCursor := Machine.steady_showCursor true
  moveCursor _ := Machine.steady_changeScreen _
  printIn := Machine.steady_printIn
  fillArea _ _ := Machine.steady_onScreen _
  waitKey := Machine.steady_waitKey
  keysReady := Machine.steady_get fun _ _ _ _ _ => .pure _
  colour _ := by
    apply Machine.steady_ask
    rintro m n ⟨core, printed, logged, -, rfl⟩
    rfl

end BasicMachine
