import ClassScript.Proofs.Binding.Places
import ClassScript.Proofs.Likeness.Trees

set_option autoImplicit false

/-!
# Binding the names of trees that are alike

The binding walk does the same to trees that are alike: it reports as many faults, and it finds every
reference at the same distance.  This needs that no name is changed to one that is there already, for
otherwise a reference would find another binding than before, or none.
-/

namespace ClassScript

open Resolution

/-! ## Names that stay apart -/

namespace Guise

/-- Different names stay different, whichever scopes they are declared in. -/
structure Clear (K : Guise) : Prop where
  apart : ∀ {mark mark' : Bool} {name other : String}, K.allows mark name →
    K.allows mark' other → K.rename mark name = K.rename mark' other → name = other
  this : K.allows false "this"
  super : K.allows false "super"

/-- Every reference has its own number still. -/
def KeepsNumbers (K : Guise) : Prop :=
  ∀ id id' d, K.link id id' d → id' = id

end Guise

/-! ## Frames that are alike -/

/-- The frames have the same names at the same stages, but for the change of names. -/
def SameFrame (K : Guise) (mark : Bool) (frame frame' : Frame) : Prop :=
  List.Forall₂ (fun p q => q.1 = K.rename mark p.1 ∧ q.2 = p.2 ∧ K.allows mark p.1) frame frame'

/-- There is one frame for each mark, and another that is alike. -/
inductive SameFrames (K : Guise) : List Bool → List Frame → List Frame → Prop where
  | outside : SameFrames K [] [] []
  | inside {mark : Bool} {marks : List Bool} {frame frame' : Frame} {frames frames' : List Frame}
      (head : SameFrame K mark frame frame') (rest : SameFrames K marks frames frames') :
      SameFrames K (mark :: marks) (frame :: frames) (frame' :: frames')

section Frames

variable {K : Guise} {mark : Bool} {marks : List Bool} {frames frames' : List Frame}

/-- A name is in both frames or in none, if it is a name of this scope or of no scope so near. -/
theorem SameFrame.lookup (clear : K.Clear) {frame frame' : Frame}
    (h : SameFrame K mark frame frame') {b : Bool} {name : String} (allowed : K.allows b name)
    (here : b = mark ∨ frame.lookup name = none) :
    frame'.lookup (K.rename b name) = frame.lookup name := by
  induction h with
  | nil => rfl
  | @cons p q ps qs first _ ih =>
    obtain ⟨n, stage⟩ := p
    obtain ⟨n', stage'⟩ := q
    obtain ⟨named, staged, permitted⟩ := first
    dsimp only at named staged permitted
    subst named staged
    rw [lookup_put] at here
    rw [lookup_put, lookup_put]
    by_cases same : name = n
    · subst same
      simp only [if_true, reduceCtorEq, or_false] at here
      rw [if_pos rfl, here, if_pos rfl]
    · rw [if_neg same] at here
      have apart : K.rename b name ≠ K.rename mark n := fun h => same (clear.apart allowed permitted h)
      rw [if_neg same, if_neg apart]
      exact ih here

/-- The frame of a word that is never changed. -/
theorem SameFrame.single {name : String} (allowed : K.allows false name) (stage : Stage) :
    SameFrame K false [(name, stage)] [(name, stage)] :=
  .cons ⟨rfl, rfl, allowed⟩ .nil

namespace SameFrames

/-- A name is equally far, as the name that it is changed to in its scope. -/
theorem distance? (clear : K.Clear) (h : SameFrames K marks frames frames') {name : String}
    (allowed : K.allows (markAt marks (distance? name frames)) name) :
    ClassScript.distance? (K.rename (markAt marks (ClassScript.distance? name frames)) name)
        frames' = ClassScript.distance? name frames := by
  induction h with
  | outside => rfl
  | inside head rest ih =>
    rename_i mark marks frame frame' frames frames'
    cases found : frame.lookup name with
    | some stage =>
      have near : ClassScript.distance? name (frame :: frames) = some 0 := by
        simp [ClassScript.distance?, found]
      rw [near] at allowed ⊢
      have there := head.lookup clear (b := mark) allowed (.inl rfl)
      change (if (frame'.lookup (K.rename mark name)).isSome then _ else _) = _
      rw [there, found]
      rfl
    | none =>
      have far : ClassScript.distance? name (frame :: frames) =
          (ClassScript.distance? name frames).map (· + 1) := by
        simp [ClassScript.distance?, found]
      have mark_far : markAt (mark :: marks) ((ClassScript.distance? name frames).map (· + 1)) =
          markAt marks (ClassScript.distance? name frames) := by
        cases ClassScript.distance? name frames <;> rfl
      rw [far, mark_far] at allowed ⊢
      have there := head.lookup clear allowed (.inr found)
      change (if (frame'.lookup _).isSome then _ else _) = _
      rw [there, found, ih allowed]
      rfl

/-- The innermost scopes agree on a name. -/
theorem stageIn (clear : K.Clear) (h : SameFrames K marks frames frames') {b : Bool}
    {name : String} (allowed : K.allows b name)
    (here : b = marks.headD false ∨ b = markAt marks (ClassScript.distance? name frames)) :
    ClassScript.stageIn frames' (K.rename b name) = ClassScript.stageIn frames name := by
  cases h with
  | outside => rfl
  | inside head rest =>
    rename_i mark marks frame frame' frames frames'
    apply head.lookup clear allowed
    cases found : frame.lookup name with
    | none => exact .inr rfl
    | some stage =>
      refine .inl ?_
      rcases here with here | here
      · exact here
      · have near : ClassScript.distance? name (frame :: frames) = some 0 := by
          simp [ClassScript.distance?, found]
        rw [near] at here
        exact here

theorem put (h : SameFrames K marks frames frames') {name : String}
    (allowed : K.allows (marks.headD false) name) (stage : Stage) :
    SameFrames K marks (putName name stage frames)
      (putName (K.rename (marks.headD false) name) stage frames') := by
  cases h with
  | outside => exact .outside
  | inside head rest => exact .inside (.cons ⟨rfl, rfl, allowed⟩ head) rest

theorem tail (h : SameFrames K marks frames frames') :
    SameFrames K marks.tail frames.tail frames'.tail := by
  cases h with
  | outside => exact .outside
  | inside _ rest => exact rest

end SameFrames

end Frames

/-! ## Walks in step -/

/-- Two walks have come equally far. -/
structure InStep (K : Guise) (marks : List Bool) (frames : List Frame) (r r' : Resolution) :
    Prop where
  here : r.scopes = frames
  there : SameFrames K marks frames r'.scopes
  faults : r'.faults.size = r.faults.size
  distances : K.KeepsNumbers → r'.distances = r.distances

namespace InStep

variable {K : Guise} {mark : Bool} {marks : List Bool} {frames : List Frame} {r r' : Resolution}
  {t t' : Token}

theorem report (h : InStep K marks frames r r') (t t' : Token) (fault fault' : BindingFault) :
    InStep K marks frames (r.report t fault) (r'.report t' fault') := by
  refine { h with faults := ?_ }
  rw [Resolution.report, Resolution.report, Array.size_push, Array.size_push, h.faults]

theorem reportIf (h : InStep K marks frames r r') {condition condition' : Bool}
    (same : condition' = condition) (t t' : Token) (fault : BindingFault) :
    InStep K marks frames (r.reportIf condition t fault) (r'.reportIf condition' t' fault) := by
  subst same
  cases condition' with
  | true => exact h.report t t' fault fault
  | false => exact h

theorem enter (h : InStep K marks frames r r') (mark : Bool) {frame : Frame}
    (same : SameFrame K mark frame frame) :
    InStep K (mark :: marks) (frame :: frames) (r.enter frame) (r'.enter frame) where
  here := congrArg (frame :: ·) h.here
  there := .inside same h.there
  faults := h.faults
  distances := h.distances

theorem leave (h : InStep K marks frames r r') :
    InStep K marks.tail frames.tail r.leave r'.leave where
  here := congrArg List.tail h.here
  there := h.there.tail
  faults := h.faults
  distances := h.distances

/-- What is put into the innermost scopes is the same, but for the change of names. -/
theorem put (h : InStep K marks frames r r') {name : String}
    (allowed : K.allows (marks.headD false) name) (stage : Stage) :
    InStep K marks (putName name stage frames) (r.put name stage)
      (r'.put (K.rename (marks.headD false) name) stage) where
  here := by rw [scopes_put, h.here]
  there := by
    rw [scopes_put]
    exact h.there.put allowed stage
  faults := by rw [faults_put, faults_put, h.faults]
  distances kept := by rw [distances_put, distances_put, h.distances kept]

variable (clear : K.Clear)
include clear

theorem stage? (h : InStep K marks frames r r') {b : Bool} {name : String}
    (allowed : K.allows b name)
    (here : b = marks.headD false ∨ b = markAt marks (distance? name frames)) :
    r'.stage? (K.rename b name) = r.stage? name := by
  have same := h.there.stageIn clear allowed here
  rw [← h.here] at same
  exact same

theorem declare (h : InStep K marks frames r r') (same : K.SameName (marks.headD false) t t') :
    InStep K marks (declareName t.lexeme frames) (r.declare t) (r'.declare t') := by
  have stage := h.stage? clear same.allowed (.inl rfl)
  rw [← same.lexeme] at stage
  have frame : (r.stage? t.lexeme).isSome = (stageIn frames t.lexeme).isSome := by
    rw [← h.here]
    rfl
  unfold Resolution.declare declareName
  rw [stage, frame]
  split
  · exact h.report t t' _ _
  · rw [same.lexeme]
    exact h.put same.allowed .declared

omit clear in
theorem define (h : InStep K marks frames r r') (same : K.SameName (marks.headD false) t t') :
    InStep K marks (putName t.lexeme .defined frames) (r.define t) (r'.define t') := by
  unfold Resolution.define
  rw [same.lexeme]
  exact h.put same.allowed .defined

theorem bind (h : InStep K marks frames r r') (same : K.SameName (marks.headD false) t t') :
    InStep K marks (bindName t.lexeme frames) ((r.declare t).define t)
      ((r'.declare t').define t') :=
  (h.declare clear same).define same

theorem declareAll {ts ts' : List Token} (h : InStep K (mark :: marks) frames r r')
    (same : List.Forall₂ (K.SameName mark) ts ts') :
    InStep K (mark :: marks) (bindNames (ts.map Token.lexeme) frames)
      (Resolution.declareAll ts r) (Resolution.declareAll ts' r') := by
  induction same generalizing frames r r' with
  | nil => exact h
  | cons first _ ih => exact ih (h.bind clear first)

theorem record (h : InStep K marks frames r r') {id id' : Nat}
    (same : K.SameReference marks frames id t id' t') :
    InStep K marks frames (r.record id t) (r'.record id' t') := by
  have far := h.there.distance? clear same.name.allowed
  rw [← same.name.lexeme] at far
  refine ⟨by rw [scopes_record, h.here], by rw [scopes_record]; exact h.there, ?_, fun kept => ?_⟩
  · rw [faults_record, faults_record, h.faults]
  · have number : id' = id := kept _ _ _ same.linked
    unfold Resolution.record
    rw [far, h.here, number]
    split
    · rw [h.distances kept]
    · exact h.distances kept

end InStep

/-! ## Trees -/

/-- Superclasses are given by the same name. -/
theorem Expr.Alike.nameToken? {K : Guise} {marks : List Bool} {frames : List Frame} {e e' : Expr}
    (h : e.Alike K marks frames e') :
    Option.Rel (fun t t' => K.SameName (markAt marks (distance? t.lexeme frames)) t t')
      e.nameToken? e'.nameToken? := by
  cases h with
  | name same => exact .some same.name
  | constant | unary | binary | grouping | assign | logical | call | get | set | this | super =>
    exact .none

/-- A name that is bound is as near as can be. -/
theorem markAt_bindName {K : Guise} {marks : List Bool} {frames frames' : List Frame}
    {name : String} (h : SameFrames K marks (bindName name frames) frames') :
    markAt marks (distance? name (bindName name frames)) = marks.headD false := by
  cases frames with
  | nil =>
    obtain ⟨⟩ := h
    rfl
  | cons frame frames =>
    have near : distance? name (bindName name (frame :: frames)) = some 0 := by
      unfold bindName declareName
      split <;> simp [putName, distance?]
    rw [near]
    cases marks <;> rfl

theorem InStep.checkSelfInheritance {K : Guise} {marks : List Bool} {frames : List Frame}
    {r r' : Resolution} {t t' : Token} (clear : K.Clear)
    (h : InStep K marks (bindName t.lexeme frames) r r')
    (name : K.SameName (marks.headD false) t t') {e e' : Expr}
    (same : e.Alike K marks (bindName t.lexeme frames) e') :
    InStep K marks (bindName t.lexeme frames) (Resolution.checkSelfInheritance t e r)
      (Resolution.checkSelfInheritance t' e' r') := by
  unfold Resolution.checkSelfInheritance
  have tokens := same.nameToken?
  generalize e.nameToken? = o at tokens ⊢
  generalize e'.nameToken? = o' at tokens ⊢
  cases tokens with
  | none => exact h
  | some super =>
    refine h.reportIf ?_ _ _ _
    rw [super.lexeme, name.lexeme]
    refine decide_eq_decide.2 ⟨clear.apart super.allowed name.allowed, fun same => ?_⟩
    rw [same, markAt_bindName h.there]


section Trees

variable {K : Guise}

mutual

/-- Expressions that are alike are walked in step. -/
theorem Expr.Alike.inStep {marks : List Bool} {frames : List Frame} {r r' : Resolution}
    (clear : K.Clear) (position : Position) {e e' : Expr} (h : e.Alike K marks frames e')
    (start : InStep K marks frames r r') :
    InStep K marks frames (e.resolve position r) (e'.resolve position r') := by
  match e, h with
  | .constant _, .constant _ => exact start
  | .unary .., .unary _ inner => exact inner.inStep clear position start
  | .binary .., .binary first _ second =>
    exact second.inStep clear position (first.inStep clear position start)
  | .grouping _, .grouping inner => exact inner.inStep clear position start
  | .name id t, .name same =>
    have stage := start.stage? clear same.name.allowed (.inr rfl)
    rw [← same.name.lexeme] at stage
    exact (start.reportIf (by rw [stage]) ..).record clear same
  | .assign .., .assign same inner => exact (inner.inStep clear position start).record clear same
  | .logical .., .logical first _ second =>
    exact second.inStep clear position (first.inStep clear position start)
  | .call .., .call first _ rest => exact rest.inStep clear position (first.inStep clear position start)
  | .get .., .get inner _ => exact inner.inStep clear position start
  | .set .., .set first _ second =>
    exact first.inStep clear position (second.inStep clear position start)
  | .this id t, .this same =>
    rw [Expr.resolve, Expr.resolve]
    cases position.inClass with
    | outside => exact start.report ..
    | rootClass | subclass => exact start.record clear same
  | .super id t _, .super same _ =>
    rw [Expr.resolve, Expr.resolve]
    cases position.inClass with
    | outside | rootClass => exact (start.report ..).record clear same
    | subclass => exact start.record clear same

theorem Expr.AlikeAll.inStep {marks : List Bool} {frames : List Frame} {r r' : Resolution}
    (clear : K.Clear) (position : Position) {es es' : List Expr}
    (h : Expr.AlikeAll K marks frames es es')
    (start : InStep K marks frames r r') :
    InStep K marks frames (Expr.resolveAll position es r)
      (Expr.resolveAll position es' r') := by
  match es, h with
  | [], .nil => exact start
  | _ :: _, .cons head tail => exact tail.inStep clear position (head.inStep clear position start)

end

theorem Expr.AlikeOption.inStep {marks : List Bool} {frames : List Frame} {r r' : Resolution}
    (clear : K.Clear) (position : Position) {e e' : Option Expr}
    (h : Expr.AlikeOption K marks frames e e')
    (start : InStep K marks frames r r') :
    InStep K marks frames (Expr.resolveOption position e r)
      (Expr.resolveOption position e' r') := by
  cases h with
  | none => exact start
  | some same => exact same.inStep clear position start

mutual

/-- Statements that are alike are walked in step. -/
theorem Stmt.Alike.inStep {marks : List Bool} {frames : List Frame} {r r' : Resolution}
    (clear : K.Clear) (position : Position) {s s' : Stmt} (h : s.Alike K marks frames s')
    (start : InStep K marks frames r r') :
    InStep K marks (s.after frames) (s.resolve position r) (s'.resolve position r') := by
  match s, h with
  | .expression _, .expression inner => exact inner.inStep clear position start
  | .print _, .print inner => exact inner.inStep clear position start
  | .varDecl .., .varDecl name inner =>
    exact (inner.inStep clear position (start.declare clear name)).define name
  | .block body, .block mark inner =>
    have walked := (inner.inStep clear position (start.enter mark .nil)).leave
    rwa [Stmt.tail_afterAll] at walked
  | .ifThen .., .ifThen condition first =>
    exact first.inStep clear position (condition.inStep clear position start)
  | .ifElse .., .ifElse condition first second =>
    exact second.inStep clear position
      (first.inStep clear position (condition.inStep clear position start))
  | .whileLoop .., .whileLoop condition body =>
    exact body.inStep clear position (condition.inStep clear position start)
  | .funDecl _, .funDecl name inner => exact inner.inStep clear _ (start.bind clear name)
  | .returnStmt .., .returnStmt token inner =>
    cases inner with
    | none => exact start.reportIf rfl ..
    | some same =>
      exact same.inStep clear position ((start.reportIf rfl ..).reportIf rfl ..)
  | .classDecl _ none _, .rootClass _ name inner =>
    have opened := (start.bind clear name).enter false (.single clear.this .defined)
    exact (inner.inStep clear { position with inClass := .rootClass } opened).leave
  | .classDecl _ (some _) _, .subclass _ name superclass inner =>
    have checked := (start.bind clear name).checkSelfInheritance clear name superclass
    have opened := ((superclass.inStep clear position checked).enter false
      (.single clear.super .defined)).enter false (.single clear.this .defined)
    exact (inner.inStep clear { position with inClass := .subclass } opened).leave.leave

theorem Stmt.AlikeAll.inStep {marks : List Bool} {frames : List Frame} {r r' : Resolution}
    (clear : K.Clear) (position : Position) {ss ss' : List Stmt}
    (h : Stmt.AlikeAll K marks frames ss ss')
    (start : InStep K marks frames r r') :
    InStep K marks (Stmt.afterAll ss frames) (Stmt.resolveAll position ss r)
      (Stmt.resolveAll position ss' r') := by
  match ss, h with
  | [], .nil => exact start
  | _ :: _, .cons head tail => exact tail.inStep clear position (head.inStep clear position start)

theorem FunctionDecl.Alike.inStep {marks : List Bool} {frames : List Frame} {r r' : Resolution}
    (clear : K.Clear) (position : Position) {f f' : FunctionDecl}
    (h : f.Alike K marks frames f')
    (start : InStep K marks frames r r') :
    InStep K marks frames (f.resolve position r) (f'.resolve position r') := by
  match f, h with
  | ⟨_, ps, body⟩, .mk mark _ parameters inner =>
    have opened := (start.enter mark .nil).declareAll clear parameters
    have walked := (inner.inStep clear position opened).leave
    rwa [Stmt.tail_afterAll, tail_bindNames] at walked

theorem FunctionDecl.AlikeAll.inStep {marks : List Bool} {frames : List Frame}
    {r r' : Resolution} (clear : K.Clear) (position : Position) {fs fs' : List FunctionDecl}
    (h : FunctionDecl.AlikeAll K marks frames fs fs') (start : InStep K marks frames r r') :
    InStep K marks frames (FunctionDecl.resolveAll position fs r)
      (FunctionDecl.resolveAll position fs' r') := by
  match fs, h with
  | [], .nil => exact start
  | _ :: _, .cons head tail =>
    rw [FunctionDecl.resolveAll, FunctionDecl.resolveAll, head.isInitializer]
    exact tail.inStep clear position (head.inStep clear _ start)

end

end Trees

/-! ## Programs -/

/-- Of programs that are alike both have faults or none, and they get the same table of distances if
references keep their numbers. -/
theorem Stmt.AlikeAll.resolve {K : Guise} {program program' : List Stmt}
    {distances distances' : Distances} (h : Stmt.AlikeAll K [] [] program program')
    (clear : K.Clear) (start : K.KeepsNumbers → distances' = distances) :
    ((ClassScript.resolve program' distances').2 = [] ↔
        (ClassScript.resolve program distances).2 = []) ∧
      (K.KeepsNumbers → (ClassScript.resolve program' distances').1 =
        (ClassScript.resolve program distances).1) := by
  have first : InStep K [] [] ⟨[], distances, #[]⟩ ⟨[], distances', #[]⟩ :=
    ⟨rfl, .outside, rfl, start⟩
  have walk := h.inStep clear Position.top first
  refine ⟨?_, walk.distances⟩
  unfold ClassScript.resolve
  rw [← List.length_eq_zero_iff, ← List.length_eq_zero_iff, Array.length_toList,
    Array.length_toList, walk.faults]

end ClassScript
