import ClassScript.Proofs.Execution.Running
import ClassScript.Proofs.Likeness.States

set_option autoImplicit false

/-!
# Actions that mirror each other

Two actions mirror each other if from states that are alike they end alike, in states that are alike.
An error differs in nothing but its line, and in the name that it says is not there.

There is one lemma for every way to put actions together, and one for every single action.
-/

namespace ClassScript

/-! ## Errors -/

/-- The same error, at lines that go together.  The name of a variable that is not there may be a
name that is changed. -/
structure RuntimeError.Alike (K : Guise) (e e' : RuntimeError) : Prop where
  line : K.line e.line e'.line
  fault : e'.fault = e.fault ∨ ∃ name, K.allows true name ∧
    e.fault = .undefinedVariable name ∧ e'.fault = .undefinedVariable (K.word name)

/-- The runs stop for the same reason. -/
inductive Interrupt.Alike (K : Guise) : Interrupt → Interrupt → Prop where
  | error {e e' : RuntimeError} (same : e.Alike K e') : Interrupt.Alike K (.error e) (.error e')
  | outOfFuel : Interrupt.Alike K .outOfFuel .outOfFuel
  | malformed : Interrupt.Alike K .malformed .malformed

/-! ## References -/

namespace State

/-- The value that a name has at a distance, or else among the globals. -/
def valueAt? (σ : State) (name : String) (distance : Option Nat) : Option Value :=
  distance.elim (σ.scopes.get? globalScope name) fun d => σ.scopes.getAt? σ.current d name

/-- The scope that has a name at a distance, or else the globals if they have it. -/
def ownerAt (σ : State) (name : String) (distance : Option Nat) : Option Nat :=
  distance.elim (σ.scopes.owner? globalScope name) fun d => σ.scopes.ownerAt? σ.current d name

end State

theorem lookUp_eq (id : Nat) (t : Token) (σ : State) :
    Eval.lookUp id t σ = (σ.valueAt? t.lexeme (σ.distances.get? id)).elim
      (Eval.fail (.undefinedVariable t.lexeme) t.line) pure σ := by
  unfold Eval.lookUp State.valueAt?
  cases h : σ.distances.get? id with
  | none =>
    simp only [run_bind, run_get, h, Option.elim_none]
    cases σ.scopes.get? globalScope t.lexeme <;> rfl
  | some d =>
    simp only [run_bind, run_get, h, Option.elim_some]
    cases σ.scopes.getAt? σ.current d t.lexeme <;> rfl

theorem assign_eq (id : Nat) (t : Token) (v : Value) (σ : State) :
    Eval.assign id t v σ =
      Eval.assignIn (σ.ownerAt t.lexeme (σ.distances.get? id)) t v σ := by
  unfold Eval.assign State.ownerAt
  cases h : σ.distances.get? id <;>
    simp only [run_bind, run_get, h, Option.elim_none, Option.elim_some]

namespace Pair.Matched

variable {K : Guise} {p : Pair} {marks : List Bool}

theorem valueAt? (m : p.Matched K) (along : p.chart.Along marks p.left.current)
    (distance : Option Nat) (name : String) :
    Option.Rel (Value.Alike K p.chart) (p.left.valueAt? name distance)
      (p.right.valueAt? (K.rename (markAt marks distance) name) distance) := by
  cases distance with
  | none =>
    change Option.Rel _ (p.left.scopes.get? globalScope name) (p.right.scopes.get? globalScope name)
    rw [get?_outermost m.outermost, get?_outermost m.outermost_right]
    exact m.global? name
  | some d =>
    change Option.Rel _ (p.left.scopes.getAt? p.left.current d name)
      (p.right.scopes.getAt? p.right.current d (K.rename (markAt marks (some d)) name))
    rw [m.effects.current]
    exact m.getAt? along d name

theorem ownerAt (m : p.Matched K) (along : p.chart.Along marks p.left.current)
    (distance : Option Nat) (name : String) :
    p.right.ownerAt (K.rename (markAt marks distance) name) distance =
      p.left.ownerAt name distance := by
  cases distance with
  | none =>
    change p.right.scopes.owner? globalScope name = p.left.scopes.owner? globalScope name
    rw [owner?_outermost m.outermost, owner?_outermost m.outermost_right, ← m.isSome_local?,
      m.plain]
    rfl
  | some d =>
    change p.right.scopes.ownerAt? p.right.current d _ =
      p.left.scopes.ownerAt? p.left.current d name
    rw [m.effects.current]
    exact m.ownerAt? along d name

/-- The scope that has a name at a distance is marked as the marks say. -/
theorem marked_owner (m : p.Matched K) (along : p.chart.Along marks p.left.current)
    {distance : Option Nat} {name : String} {f : Nat}
    (owns : p.left.ownerAt name distance = some f) : p.marked f = markAt marks distance := by
  cases distance with
  | none =>
    change p.left.scopes.owner? globalScope name = some f at owns
    rw [owner?_outermost m.outermost] at owns
    split at owns
    · cases owns
      exact m.plain
    · cases owns
  | some d =>
    obtain ⟨up, -⟩ := Option.filter_eq_some_iff.1 owns
    exact m.marked_ancestor along up

end Pair.Matched

/-! ## Mirroring -/

/-- Whatever becomes of the first action, the second comes to the same, and what they yield is
related. -/
structure Mirrors (K : Guise) (p : Pair) {α β : Type} (Q : α → β → Pair → Prop) (x : Eval α)
    (y : Eval β) : Prop where
  ok : ∀ a σ, x p.left = .ok a σ → ∃ (p' : Pair) (b : β), p'.left = σ ∧
    y p.right = .ok b p'.right ∧ p'.Matched K ∧ p.Grown p' ∧ Q a b p'
  error : ∀ i σ, x p.left = .error i σ → ∃ (p' : Pair) (i' : Interrupt), p'.left = σ ∧
    y p.right = .error i' p'.right ∧ p'.Matched K ∧ p.Grown p' ∧ i.Alike K i'

/-- What is yielded is alike. -/
def AlikeResult (K : Guise) (v w : Value) (p : Pair) : Prop :=
  v.Alike K p.chart w

namespace Mirrors

variable {K : Guise} {p p₁ p' : Pair} {α β γ δ : Type} {Q : α → β → Pair → Prop}
  {R : γ → δ → Pair → Prop} {x : Eval α} {y : Eval β} {mark : Bool} {marks : List Bool}
  {frames : List Frame} {t t' : Token} {v w : Value} {l l' : Nat}

/-! ## Putting actions together -/

theorem done (a : α) (b : β) (left : x p.left = .ok a p'.left) (right : y p.right = .ok b p'.right)
    (m : p'.Matched K) (grown : p.Grown p') (q : Q a b p') : Mirrors K p Q x y := by
  refine ⟨fun a' σ h => ?_, fun i σ h => ?_⟩
  · rw [left] at h
    cases h
    exact ⟨p', b, rfl, right, m, grown, q⟩
  · rw [left] at h
    cases h

theorem stopped {i i' : Interrupt} (same : i.Alike K i') (left : x p.left = .error i p.left)
    (right : y p.right = .error i' p.right) (m : p.Matched K) : Mirrors K p Q x y := by
  refine ⟨fun a σ h => ?_, fun j σ h => ?_⟩
  · rw [left] at h
    cases h
  · rw [left] at h
    cases h
    exact ⟨p, i', rfl, right, m, .refl p, same⟩

protected theorem pure {a : α} {b : β} (m : p.Matched K) (q : Q a b p) :
    Mirrors K p Q (pure a) (pure b) :=
  done a b rfl rfl m (.refl p) q

protected theorem get (m : p.Matched K) :
    Mirrors K p (fun a b p' => a = p.left ∧ b = p.right ∧ p' = p) get get :=
  done p.left p.right rfl rfl m (.refl p) ⟨rfl, rfl, rfl⟩

theorem fail (m : p.Matched K) (fault : RuntimeFault) (line : K.line l l') :
    Mirrors K p Q (Eval.fail fault l) (Eval.fail fault l') := by
  have same : (Interrupt.error ⟨fault, l⟩).Alike K (.error ⟨fault, l'⟩) := .error ⟨line, .inl rfl⟩
  exact stopped same rfl rfl m

/-- A variable that is not there has the name that it is changed to. -/
theorem undefinedVariable (m : p.Matched K) (name : K.SameName mark t t') :
    Mirrors K p Q (Eval.fail (.undefinedVariable t.lexeme) t.line)
      (Eval.fail (.undefinedVariable t'.lexeme) t'.line) := by
  have same : RuntimeError.Alike K ⟨.undefinedVariable t.lexeme, t.line⟩
      ⟨.undefinedVariable t'.lexeme, t'.line⟩ := by
    refine ⟨name.line, ?_⟩
    rw [name.lexeme]
    cases mark with
    | false => exact .inl rfl
    | true => exact .inr ⟨t.lexeme, name.allowed, rfl, rfl⟩
  exact stopped (.error same) rfl rfl m

theorem malformed (m : p.Matched K) :
    Mirrors K p Q (throw .malformed) (throw .malformed) :=
  stopped .malformed rfl rfl m

theorem spent (m : p.Matched K) : Mirrors K p Q Eval.spent Eval.spent :=
  stopped .outOfFuel rfl rfl m

theorem imp {Q' : α → β → Pair → Prop} (h : Mirrors K p Q x y)
    (imp : ∀ a b p', p.Grown p' → Q a b p' → Q' a b p') : Mirrors K p Q' x y := by
  refine ⟨fun a σ run => ?_, h.error⟩
  obtain ⟨p', b, same, right, m, grown, q⟩ := h.ok a σ run
  exact ⟨p', b, same, right, m, grown, imp a b p' grown q⟩

/-- One action after another. -/
theorem bind {k : α → Eval γ} {l : β → Eval δ} (h : Mirrors K p Q x y)
    (next : ∀ a b p', p'.Matched K → p.Grown p' → Q a b p' → Mirrors K p' R (k a) (l b)) :
    Mirrors K p R (x >>= k) (y >>= l) := by
  have first := fun σ => run_bind σ x k
  have second := fun σ => run_bind σ y l
  cases run : x p.left with
  | ok a σ =>
    obtain ⟨p₁, b, rfl, ran, m, grown, q⟩ := h.ok a σ run
    have rest := next a b p₁ m grown q
    refine ⟨fun c σ' run' => ?_, fun i σ' run' => ?_⟩
    · rw [first, run] at run'
      obtain ⟨p', d, same, ran', m', grown', r⟩ := rest.ok c σ' run'
      exact ⟨p', d, same, by rw [second, ran]; exact ran', m', grown.trans grown', r⟩
    · rw [first, run] at run'
      obtain ⟨p', i', same, ran', m', grown', alike⟩ := rest.error i σ' run'
      exact ⟨p', i', same, by rw [second, ran]; exact ran', m', grown.trans grown', alike⟩
  | error i σ =>
    obtain ⟨p', i', rfl, ran, m, grown, alike⟩ := h.error i σ run
    refine ⟨fun c σ' run' => ?_, fun j σ' run' => ?_⟩
    · rw [first, run] at run'
      cases run'
    · rw [first, run] at run'
      cases run'
      exact ⟨p', i', rfl, by rw [second, ran], m, grown, alike⟩

/-- Actions that run alike. -/
theorem congr {x' : Eval α} {y' : Eval β} (left : x p.left = x' p.left)
    (right : y p.right = y' p.right) (h : Mirrors K p Q x' y') : Mirrors K p Q x y := by
  refine ⟨fun a σ run => ?_, fun i σ run => ?_⟩
  · rw [right]
    exact h.ok a σ (left.symm.trans run)
  · rw [right]
    exact h.error i σ (left.symm.trans run)

/-- Actions within the same scope. -/
theorem inScope {f : Nat} (h : Mirrors K (p.moveTo f) Q x y) (m : p.Matched K)
    (back : ∀ a b p', Q a b p' → Q a b (p'.moveTo p.left.current)) :
    Mirrors K p Q (Eval.inScope f x) (Eval.inScope f y) := by
  have right : ∀ σ : State, { σ with current := p.right.current } =
      { σ with current := p.left.current } := fun σ => by rw [m.effects.current]
  refine ⟨fun a σ run => ?_, fun i σ run => ?_⟩
  · obtain ⟨σ', inner, rfl⟩ := inScope_eq_ok run
    obtain ⟨p', b, rfl, ran, m', grown, q⟩ := h.ok a σ' inner
    refine ⟨p'.moveTo p.left.current, b, rfl, ?_, m'.moveTo _, ⟨grown.kept, rfl⟩, back _ _ _ q⟩
    have ran' : y { p.right with current := f } = .ok b p'.right := ran
    simp only [Eval.inScope, ran', right]
    rfl
  · obtain ⟨σ', inner, rfl⟩ := inScope_eq_error run
    obtain ⟨p', i', rfl, ran, m', grown, alike⟩ := h.error i σ' inner
    refine ⟨p'.moveTo p.left.current, i', rfl, ?_, m'.moveTo _, ⟨grown.kept, rfl⟩, alike⟩
    have ran' : y { p.right with current := f } = .error i' p'.right := ran
    simp only [Eval.inScope, ran', right]
    rfl

/-! ## Operators -/

theorem applyUnary (m : p.Matched K) (same : v.Alike K p.chart w) (token : K.SameToken t t') :
    Mirrors K p (AlikeResult K) (Eval.applyUnary t v) (Eval.applyUnary t' w) := by
  unfold Eval.applyUnary
  rw [token.kind]
  split
  · cases same with
    | number x => exact .pure m (.number _)
    | nil | bool | text | native | function | bound | ofClass | object =>
      exact .fail m _ token.line
  · rw [same.isTruthy]
    exact .pure m (.bool _)
  · exact .malformed m

theorem applyBinary {v' w' : Value} (m : p.Matched K) (same : v.Alike K p.chart w)
    (same' : v'.Alike K p.chart w') (token : K.SameToken t t') :
    Mirrors K p (AlikeResult K) (Eval.applyBinary t v v') (Eval.applyBinary t' w w') := by
  unfold Eval.applyBinary
  rw [token.kind]
  split
  · rw [same.equals same']
    exact .pure m (.bool _)
  · rw [same.equals same']
    exact .pure m (.bool _)
  · cases same with
    | number x =>
      cases same' with
      | number y => exact .pure m (.number _)
      | nil | bool | text | native | function | bound | ofClass | object =>
        exact .fail m _ token.line
    | text s =>
      cases same' with
      | text s' => exact .pure m (.text _)
      | nil | bool | number | native | function | bound | ofClass | object =>
        exact .fail m _ token.line
    | nil | bool | native | function | bound | ofClass | object => exact .fail m _ token.line
  · cases same with
    | number x =>
      cases same' with
      | number y =>
        dsimp only
        cases h : Eval.arithmetic t.kind x y with
        | none => exact .malformed m
        | some value => exact .pure m (.arithmetic h)
      | nil | bool | text | native | function | bound | ofClass | object =>
        exact .fail m _ token.line
    | nil | bool | text | native | function | bound | ofClass | object =>
      exact .fail m _ token.line

/-! ## Effects -/

theorem print (m : p.Matched K) (text : String) (line : K.line l l') :
    Mirrors K p (fun _ _ _ => True) (Eval.print text l) (Eval.print text l') := by
  have accepts : p.right.host.accepts p.right.printed.size =
      p.left.host.accepts p.left.printed.size := by
    rw [m.effects.host, m.effects.printed]
  cases room : p.left.host.accepts p.left.printed.size with
  | false =>
    rw [room] at accepts
    refine congr ?_ ?_ (.fail m .outputFull line)
    · simp [Eval.print, room]
    · simp [Eval.print, accepts]
  | true =>
    rw [room] at accepts
    refine done () () ?_ ?_ (m.print text) (Pair.grown_quiet rfl rfl) trivial
    · simp [Eval.print, room, Pair.print]
    · simp [Eval.print, accepts, Pair.print]

theorem readClock (m : p.Matched K) :
    Mirrors K p (fun a b _ => b = a) Eval.readClock Eval.readClock := by
  refine done _ _ (by rfl) (by rfl) m.readClock (Pair.grown_quiet rfl rfl) ?_
  rw [m.effects.host, m.effects.clockReads]

theorem freshSerial (m : p.Matched K) :
    Mirrors K p (fun a b p' => b = a ∧ p' = p.freshSerial) Eval.freshSerial
      Eval.freshSerial := by
  exact done _ _ (by rfl) (by rfl) m.freshSerial (Pair.grown_quiet rfl rfl)
    ⟨m.effects.nextSerial, rfl⟩

theorem checkArity {values values' : List Value} (m : p.Matched K)
    (same : List.Forall₂ (Value.Alike K p.chart) values values') (expected : Nat)
    (line : K.line l l') :
    Mirrors K p (fun _ _ p' => p' = p) (Eval.checkArity expected values l)
      (Eval.checkArity expected values' l') := by
  unfold Eval.checkArity
  rw [same.length_eq]
  split
  · exact .pure m rfl
  · exact .fail m _ line

theorem applyNative {values values' : List Value} (m : p.Matched K)
    (same : List.Forall₂ (Value.Alike K p.chart) values values') (f : Native)
    (line : K.line l l') :
    Mirrors K p (AlikeResult K) (Eval.applyNative Eval.readClock f values l)
      (Eval.applyNative Eval.readClock f values' l') := by
  have pick : ∀ i : Nat, (values.getD i .nil).Alike K p.chart (values'.getD i .nil) := by
    induction same with
    | nil => exact fun _ => .nil
    | cons first _ ih =>
      intro i
      cases i with
      | zero => exact first
      | succ i => exact ih i
  cases f with
  | clock =>
    apply (readClock m).bind
    rintro x _ p' m' - rfl
    exact .pure m' (.number _)
  | typeName =>
    refine .pure m ?_
    rw [(pick 0).typeName]
    exact .text _
  | text =>
    refine .pure m ?_
    rw [(pick 0).toText]
    exact .text _
  | inspected =>
    refine .pure m ?_
    rw [(pick 0).toInspected]
    exact .text _
  | truthy =>
    refine .pure m ?_
    rw [(pick 0).isTruthy]
    exact .bool _
  | equal =>
    refine .pure m ?_
    rw [(pick 0).equals (pick 1)]
    exact .bool _
  | fail =>
    change Mirrors K p _ (Eval.fail (.native (values.getD 0 .nil).toText) l)
      (Eval.fail (.native (values'.getD 0 .nil).toText) l')
    rw [(pick 0).toText]
    exact .fail m _ line

/-! ## Scopes -/

theorem openScope {b b' : Bindings Value} (m : p.Matched K) (outside : Nat) (mark : Bool)
    (same : Bindings.Same (Value.Alike K p.chart) (b.rename (K.rename mark)) b') :
    Mirrors K p (fun f f' p' => f = p.left.scopes.size ∧ f' = f ∧ p' = p.push b b' outside mark)
      (Eval.openScope b outside) (Eval.openScope b' outside) := by
  exact done _ _ (by rfl) (by rfl) (m.push outside mark same) (Pair.grown_push ..)
    ⟨rfl, m.size, rfl⟩

theorem define (m : p.Matched K) (name : String) (same : v.Alike K p.chart w) :
    Mirrors K p (fun _ _ p' => p' = p.define K p.left.current name v w) (Eval.define name v)
      (Eval.define (K.rename (p.marked p.left.current) name) w) := by
  refine done () () (by rfl) ?_ (m.define p.left.current name same) (Pair.grown_define ..) rfl
  simp [Eval.define, Pair.define, m.effects.current]

/-- A value is assigned in the scope that has the name, if there is one. -/
theorem assignIn (m : p.Matched K) (owner : Option Nat) (same : v.Alike K p.chart w)
    (name : K.SameName mark t t') (marked : ∀ f, owner = some f → p.marked f = mark) :
    Mirrors K p (fun _ _ _ => True) (Eval.assignIn owner t v) (Eval.assignIn owner t' w) := by
  cases owner with
  | none => exact .undefinedVariable m name
  | some f =>
    refine done () () (by rfl) ?_ (m.define f t.lexeme same) (Pair.grown_define ..) trivial
    simp [Eval.assignIn, Pair.define, name.lexeme, marked f rfl]

/-! ## References -/

/-- What is found at the distance of a reference. -/
theorem orUndefined {found found' : Option Value} (m : p.Matched K) (name : K.SameName mark t t')
    (same : Option.Rel (Value.Alike K p.chart) found found') :
    Mirrors K p (AlikeResult K)
      (found.elim (Eval.fail (.undefinedVariable t.lexeme) t.line) pure)
      (found'.elim (Eval.fail (.undefinedVariable t'.lexeme) t'.line) pure) := by
  cases same with
  | none => exact .undefinedVariable m name
  | some value => exact .pure m value

/-- A reference is looked up in the same scope. -/
theorem lookUp {id id' : Nat} (m : p.Matched K) (along : p.chart.Along marks p.left.current)
    (same : K.SameReference marks frames id t id' t') :
    Mirrors K p (AlikeResult K) (Eval.lookUp id t) (Eval.lookUp id' t') := by
  obtain ⟨left, right⟩ := m.linked _ _ _ same.linked
  have found := m.valueAt? along (distance? t.lexeme frames) t.lexeme
  rw [← same.name.lexeme] at found
  refine congr ?_ ?_ (orUndefined m same.name found)
  · rw [lookUp_eq, left]
  · rw [lookUp_eq, right]

/-- A reference is assigned to in the same scope. -/
theorem assign {id id' : Nat} (m : p.Matched K) (along : p.chart.Along marks p.left.current)
    (same : K.SameReference marks frames id t id' t') (value : v.Alike K p.chart w) :
    Mirrors K p (fun _ _ _ => True) (Eval.assign id t v) (Eval.assign id' t' w) := by
  obtain ⟨left, right⟩ := m.linked _ _ _ same.linked
  have owner := m.ownerAt along (distance? t.lexeme frames) t.lexeme
  rw [← same.name.lexeme] at owner
  refine congr ?_ ?_ (assignIn m (p.left.ownerAt t.lexeme (distance? t.lexeme frames)) value
    same.name fun f owns => m.marked_owner along owns)
  · rw [assign_eq, left]
  · rw [assign_eq, right, owner]

end Mirrors

end ClassScript
