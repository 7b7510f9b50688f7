import ClassScript.Proofs.Binding.Reported

set_option autoImplicit false

/-!
# Where a program returns

If the binding walk reports nothing, a program returns from nothing but functions, and an initializer
returns no value.  What a statement returns is up to the returns in it that belong to the innermost
function around it, whatever functions, methods and classes it declares besides.
-/

namespace ClassScript

/-- The position of the body of a method. -/
def FunctionDecl.methodPosition (f : FunctionDecl) : FunctionPosition :=
  if f.isInitializer then .initializer else .method

/-- A position where a `return` may stand, with a value or without. -/
def FunctionPosition.AllowsReturn (position : FunctionPosition) (valued : Bool) : Prop :=
  position ≠ .outside ∧ (valued = true → position ≠ .initializer)

mutual

/-- A statement at the given position returns only where it may. -/
def Stmt.ReturnsIn (position : FunctionPosition) : Stmt → Prop
  | .expression _ => True
  | .print _ => True
  | .varDecl _ _ => True
  | .block body => Stmt.ReturnsInAll position body
  | .ifThen _ thenBranch => thenBranch.ReturnsIn position
  | .ifElse _ thenBranch elseBranch =>
    thenBranch.ReturnsIn position ∧ elseBranch.ReturnsIn position
  | .whileLoop _ body => body.ReturnsIn position
  | .funDecl declaration => declaration.ReturnsIn .function
  | .returnStmt _ value => position.AllowsReturn value.isSome
  | .classDecl _ _ methods => FunctionDecl.MethodsReturn methods

/-- Statements whose `return`s all fit their position. -/
def Stmt.ReturnsInAll (position : FunctionPosition) : List Stmt → Prop
  | [] => True
  | s :: ss => s.ReturnsIn position ∧ Stmt.ReturnsInAll position ss

/-- A function whose body has the given position. -/
def FunctionDecl.ReturnsIn (position : FunctionPosition) : FunctionDecl → Prop
  | ⟨_, _, body⟩ => Stmt.ReturnsInAll position body

/-- Methods return only where they may. -/
def FunctionDecl.MethodsReturn : List FunctionDecl → Prop
  | [] => True
  | f :: fs => f.ReturnsIn f.methodPosition ∧ FunctionDecl.MethodsReturn fs

end

theorem Stmt.ReturnsInAll.of_mem {position : FunctionPosition} {ss : List Stmt}
    (h : Stmt.ReturnsInAll position ss) : ∀ s ∈ ss, s.ReturnsIn position := by
  induction ss with
  | nil => exact fun s hs => absurd hs List.not_mem_nil
  | cons t ss ih =>
    intro s hs
    rcases List.mem_cons.1 hs with rfl | hs
    · exact h.1
    · exact ih h.2 s hs

theorem FunctionDecl.MethodsReturn.of_mem {fs : List FunctionDecl}
    (h : FunctionDecl.MethodsReturn fs) : ∀ f ∈ fs, f.ReturnsIn f.methodPosition := by
  induction fs with
  | nil => exact fun f hf => absurd hf List.not_mem_nil
  | cons g fs ih =>
    intro f hf
    rcases List.mem_cons.1 hf with rfl | hf
    · exact h.1
    · exact ih h.2 f hf

/-! ## Methods of a program -/

mutual

/-- All methods that are declared in a statement, also within functions and other methods. -/
def Stmt.methods : Stmt → List FunctionDecl
  | .block body => Stmt.methodsAll body
  | .ifThen _ thenBranch => thenBranch.methods
  | .ifElse _ thenBranch elseBranch => thenBranch.methods ++ elseBranch.methods
  | .whileLoop _ body => body.methods
  | .funDecl declaration => declaration.methodsWithin
  | .classDecl _ _ methods => methods ++ FunctionDecl.methodsWithinAll methods
  | .expression _ | .print _ | .varDecl _ _ | .returnStmt _ _ => []

/-- All methods that are declared in statements. -/
def Stmt.methodsAll : List Stmt → List FunctionDecl
  | [] => []
  | s :: ss => s.methods ++ Stmt.methodsAll ss

/-- All methods that are declared in the body of a function. -/
def FunctionDecl.methodsWithin : FunctionDecl → List FunctionDecl
  | ⟨_, _, body⟩ => Stmt.methodsAll body

/-- All methods that are declared in the bodies of functions. -/
def FunctionDecl.methodsWithinAll : List FunctionDecl → List FunctionDecl
  | [] => []
  | f :: fs => f.methodsWithin ++ FunctionDecl.methodsWithinAll fs

end

mutual

/-- Where a statement returns only where it may, so do all methods in it. -/
theorem Stmt.ReturnsIn.methods {position : FunctionPosition} {s : Stmt}
    (h : s.ReturnsIn position) : ∀ f ∈ s.methods, f.ReturnsIn f.methodPosition := by
  intro f hf
  match s with
  | .block body =>
    have within : Stmt.ReturnsInAll position body := h
    exact within.methods f hf
  | .ifThen _ thenBranch => exact Stmt.ReturnsIn.methods (s := thenBranch) h f hf
  | .ifElse _ thenBranch elseBranch =>
    rcases List.mem_append.1 hf with hf | hf
    · exact Stmt.ReturnsIn.methods (s := thenBranch) h.1 f hf
    · exact Stmt.ReturnsIn.methods (s := elseBranch) h.2 f hf
  | .whileLoop _ body => exact Stmt.ReturnsIn.methods (s := body) h f hf
  | .funDecl declaration => exact FunctionDecl.ReturnsIn.methodsWithin h f hf
  | .classDecl _ _ methods =>
    rcases List.mem_append.1 hf with hf | hf
    · exact FunctionDecl.MethodsReturn.of_mem h f hf
    · exact FunctionDecl.MethodsReturn.methodsWithinAll h f hf
  | .expression _ | .print _ | .varDecl _ _ | .returnStmt _ _ => exact absurd hf List.not_mem_nil

theorem Stmt.ReturnsInAll.methods {position : FunctionPosition} {ss : List Stmt}
    (h : Stmt.ReturnsInAll position ss) :
    ∀ f ∈ Stmt.methodsAll ss, f.ReturnsIn f.methodPosition := by
  intro f hf
  match ss with
  | [] => exact absurd hf List.not_mem_nil
  | s :: ss =>
    rcases List.mem_append.1 hf with hf | hf
    · exact Stmt.ReturnsIn.methods (s := s) h.1 f hf
    · have others : Stmt.ReturnsInAll position ss := h.2
      exact others.methods f hf

theorem FunctionDecl.ReturnsIn.methodsWithin {position : FunctionPosition} {g : FunctionDecl}
    (h : g.ReturnsIn position) : ∀ f ∈ g.methodsWithin, f.ReturnsIn f.methodPosition := by
  match g with
  | ⟨_, _, body⟩ =>
    have within : Stmt.ReturnsInAll position body := h
    exact within.methods

theorem FunctionDecl.MethodsReturn.methodsWithinAll {fs : List FunctionDecl}
    (h : FunctionDecl.MethodsReturn fs) :
    ∀ f ∈ FunctionDecl.methodsWithinAll fs, f.ReturnsIn f.methodPosition := by
  intro f hf
  match fs with
  | [] => exact absurd hf List.not_mem_nil
  | g :: fs =>
    rcases List.mem_append.1 hf with hf | hf
    · exact FunctionDecl.ReturnsIn.methodsWithin h.1 f hf
    · exact FunctionDecl.MethodsReturn.methodsWithinAll h.2 f hf

end

/-! ## Programs without faults -/

/-- No rule is broken on any of the occasions. -/
def Lawful (os : List Occasion) : Prop :=
  ∀ o ∈ os, ∀ fault, ¬o.Breaks fault

theorem lawful_append {os os' : List Occasion} :
    Lawful (os ++ os') ↔ Lawful os ∧ Lawful os' :=
  List.forall_mem_append

theorem Lawful.tail {o : Occasion} {os : List Occasion} (h : Lawful (o :: os)) : Lawful os :=
  (List.forall_mem_cons.1 h).2

/-- A `return` that breaks no rule stands where it may. -/
theorem allowsReturn_of_lawful {around : List LexicalScope} {keyword : Token} {valued : Bool}
    {initializes : Option String}
    (legal : ∀ fault, ¬Occasion.Breaks ⟨.returns keyword valued, around, initializes⟩ fault) :
    (functionPosition (around.map LexicalScope.site)).AllowsReturn valued := by
  refine ⟨fun outside => ?_, fun holds initializer => ?_⟩
  · exact legal _ (.returnOutside ((functionPosition_outside _).1 outside))
  · obtain ⟨f, isInitializer, inside⟩ := (functionPosition_initializer _).1 initializer
    subst holds
    exact legal _ (.returnedValue isInitializer inside)

mutual

/-- What is lawful returns only where it may. -/
theorem Stmt.returnsIn_of_lawful (around : List LexicalScope) (s : Stmt)
    (plain : Plain (around.map LexicalScope.site)) (h : Lawful (s.occasions around)) :
    s.ReturnsIn (functionPosition (around.map LexicalScope.site)) := by
  match s with
  | .expression _ | .print _ | .varDecl _ _ => trivial
  | .block body =>
    exact Stmt.returnsInAll_of_lawful ({ site := .block body, names := [] } :: around) body trivial h
  | .ifThen condition thenBranch =>
    exact Stmt.returnsIn_of_lawful around thenBranch plain (lawful_append.1 h).2
  | .ifElse condition thenBranch elseBranch =>
    obtain ⟨first, second⟩ := lawful_append.1 h
    have otherwise := Stmt.returnsIn_of_lawful (declareIn thenBranch.declared around) elseBranch
      (by rwa [sites_declareIn]) second
    rw [sites_declareIn] at otherwise
    exact ⟨Stmt.returnsIn_of_lawful around thenBranch plain (lawful_append.1 first).2, otherwise⟩
  | .whileLoop condition body =>
    exact Stmt.returnsIn_of_lawful around body plain (lawful_append.1 h).2
  | .funDecl declaration =>
    have within := FunctionDecl.returnsIn_of_lawful
      (declareIn [declaration.name.lexeme] around) declaration h.tail
    have position : functionPosition (.body declaration :: around.map LexicalScope.site) =
        .function :=
      congrArg Position.inFunction (positionAt_function plain declaration)
    rwa [sites_declareIn, position] at within
  | .returnStmt keyword value => exact allowsReturn_of_lawful (h _ List.mem_cons_self)
  | .classDecl name none methods =>
    have inside : Plain ((declareIn [name.lexeme] around).map LexicalScope.site) := by
      rwa [sites_declareIn]
    exact FunctionDecl.methodsReturn_of_lawful
      (aroundMethods false methods (declareIn [name.lexeme] around)) methods
      (fun f => congrArg Position.inFunction (positionAt_rootMethod inside methods f)) h.tail
  | .classDecl name (some e) methods =>
    exact FunctionDecl.methodsReturn_of_lawful
      (aroundMethods true methods (declareIn [name.lexeme] around)) methods
      (fun f => congrArg Position.inFunction
        (positionAt_method (declareIn [name.lexeme] around) methods f))
      (lawful_append.1 h.tail).2

theorem Stmt.returnsInAll_of_lawful (around : List LexicalScope) (ss : List Stmt)
    (plain : Plain (around.map LexicalScope.site)) (h : Lawful (Stmt.occasionsAll around ss)) :
    Stmt.ReturnsInAll (functionPosition (around.map LexicalScope.site)) ss := by
  match ss with
  | [] => trivial
  | s :: ss =>
    obtain ⟨first, others⟩ := lawful_append.1 h
    have rest := Stmt.returnsInAll_of_lawful (declareIn s.declared around) ss
      (by rwa [sites_declareIn]) others
    rw [sites_declareIn] at rest
    exact ⟨Stmt.returnsIn_of_lawful around s plain first, rest⟩

theorem FunctionDecl.returnsIn_of_lawful (around : List LexicalScope) (f : FunctionDecl)
    (h : Lawful (f.occasions around)) :
    f.ReturnsIn (functionPosition (.body f :: around.map LexicalScope.site)) := by
  match f with
  | ⟨name, parameters, body⟩ =>
    have within := Stmt.returnsInAll_of_lawful
      (declareIn (parameters.map Token.lexeme)
        ({ site := .body ⟨name, parameters, body⟩, names := [] } :: around)) body trivial
      (lawful_append.1 h).2
    rwa [sites_declareIn] at within

theorem FunctionDecl.methodsReturn_of_lawful (around : List LexicalScope)
    (fs : List FunctionDecl)
    (position : ∀ f, functionPosition (.body f :: around.map LexicalScope.site) =
      f.methodPosition)
    (h : Lawful (FunctionDecl.occasionsAll around fs)) : FunctionDecl.MethodsReturn fs := by
  match fs with
  | [] => trivial
  | f :: fs =>
    obtain ⟨first, others⟩ := lawful_append.1 h
    have returns := FunctionDecl.returnsIn_of_lawful around f first
    rw [position] at returns
    exact ⟨returns, FunctionDecl.methodsReturn_of_lawful around fs position others⟩

end

/-- A program without faults returns only where it may. -/
theorem returnsIn_of_resolve {program : List Stmt} {distances : Distances}
    (h : (resolve program distances).2 = []) : Stmt.ReturnsInAll .outside program := by
  obtain ⟨ds, faults, diagnosed⟩ := (resolve_walks program distances).reported
  have reported : (resolve program distances).2 = ds := by simpa [resolve] using faults
  exact Stmt.returnsInAll_of_lawful [] program trivial (diagnosed.eq_nil_iff.1 (reported ▸ h))

end ClassScript
