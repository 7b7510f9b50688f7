import ClassScript.Proofs.Binding.Occasions
import ClassScript.Proofs.Binding.Settled

set_option autoImplicit false

/-!
# The state of the walk and the scopes of the text

The walk knows a place by the scopes that it has open there and by the position it is told.  Both are
determined by the text: the open scopes have just the names that are declared in the scopes around the
place, and the position says what the innermost function and class around it are.
-/

namespace ClassScript

open Resolution

/-! ## Open scopes -/

/-- The entries of an open scope are the names declared in it, all of them ready for use. -/
def Frame.Shows (frame : Frame) (names : List String) : Prop :=
  ∀ name, frame.lookup name = if name ∈ names then some .defined else none

/-- The open scopes of the walk are the scopes of the text. -/
def Matches (frames : List Frame) (around : List LexicalScope) : Prop :=
  List.Forall₂ (fun frame scope => frame.Shows scope.names) frames around

/-- What an expression asks the open scopes: which name is being initialized, and where each name is
declared. -/
structure Sees (initializes : Option String) (frames : List Frame) (around : List LexicalScope) :
    Prop where
  initializing : ∀ name, stageIn frames name = some .declared ↔ initializes = some name
  address : ∀ name, distance? name frames = address? name around

theorem declareIn_append (names names' : List String) (around : List LexicalScope) :
    declareIn (names ++ names') around = declareIn names' (declareIn names around) := by
  cases around <;> simp [declareIn]

theorem declareIn_nil (around : List LexicalScope) : declareIn [] around = around := by
  cases around <;> simp [declareIn]

theorem address?_cons (name : String) (scope : LexicalScope) (outer : List LexicalScope) :
    address? name (scope :: outer) =
      if name ∈ scope.names then some 0 else (address? name outer).map (· + 1) := by
  simp [address?, List.findIdx?_cons]

/-- A name is declared as many scopes out in the walk as in the text if the scopes have the same
names, whatever their stages. -/
theorem distance?_eq_address? {frames : List Frame} {around : List LexicalScope}
    (h : List.Forall₂ (fun frame scope => ∀ name, (List.lookup name frame).isSome ↔
      name ∈ LexicalScope.names scope) frames around) (name : String) :
    distance? name frames = address? name around := by
  induction h with
  | nil => rfl
  | cons same _ ih =>
    rw [distance?, address?_cons, ih]
    simp only [same name]

theorem Frame.Shows.isSome_iff {frame : Frame} {names : List String} (h : frame.Shows names)
    (name : String) : (frame.lookup name).isSome ↔ name ∈ names := by
  rw [h name]
  split <;> simp [*]

theorem Frame.Shows.ne_declared {frame : Frame} {names : List String} (h : frame.Shows names)
    (name : String) : frame.lookup name ≠ some .declared := by
  rw [h name]
  split <;> simp

theorem Frame.shows_single (word : String) : Frame.Shows [(word, .defined)] [word] := by
  intro name
  rw [lookup_put]
  by_cases same : name = word <;> simp [same]

/-- A name more in the scope of the text, and in the open scope. -/
theorem Frame.Shows.bind {frame frame' : Frame} {names : List String} {name : String}
    (h : frame.Shows names) (look : ∀ other, frame'.lookup other =
      if other = name then some .defined else frame.lookup other) :
    frame'.Shows (names ++ [name]) := by
  intro other
  rw [look, h other]
  by_cases same : other = name <;> simp [same]

namespace Matches

variable {frames : List Frame} {around : List LexicalScope}

theorem nil : Matches [] [] := List.Forall₂.nil

theorem enter (h : Matches frames around) (site : Site) :
    Matches ([] :: frames) ({ site, names := [] } :: around) :=
  List.Forall₂.cons (fun _ => rfl) h

theorem isSome (h : Matches frames around) :
    List.Forall₂ (fun frame scope => ∀ name, (List.lookup name frame).isSome ↔
      name ∈ LexicalScope.names scope) frames around :=
  h.imp fun _ _ shows => shows.isSome_iff

theorem sees (h : Matches frames around) : Sees none frames around where
  initializing name := by
    cases h with
    | nil => simp [stageIn]
    | cons shows _ => simpa [stageIn] using shows.ne_declared name
  address := distance?_eq_address? h.isSome

/-- A name that is bound in both. -/
theorem bind (h : Matches frames around) (name : String) :
    Matches (bindName name frames) (declareIn [name] around) := by
  cases h with
  | nil => exact nil
  | @cons frame scope frames outer shows h =>
    obtain ⟨frame', bound, look⟩ := exists_bindName name frame frames
    rw [bound]
    exact List.Forall₂.cons (shows.bind look) h

theorem bindAll (h : Matches frames around) (names : List String) :
    Matches (bindNames names frames) (declareIn names around) := by
  induction names generalizing frames around with
  | nil => rwa [declareIn_nil]
  | cons name names ih =>
    have rest := ih (h.bind name)
    rwa [← declareIn_append] at rest

/-- What the initializer of a name sees once the name is declared. -/
theorem declare (h : Matches frames around) (name : String) :
    Sees (newLocal? name around) (declareName name frames) (declareIn [name] around) := by
  cases h with
  | nil => exact nil.sees
  | @cons frame scope frames outer shows h =>
    by_cases twice : name ∈ scope.names
    · have present : (stageIn (frame :: frames) name).isSome := (shows.isSome_iff name).2 twice
      have same : Matches (frame :: frames) (declareIn [name] (scope :: outer)) := by
        refine List.Forall₂.cons (fun other => ?_) h
        rw [shows other]
        by_cases this : other = name <;> simp [this, twice]
      rw [declareName, if_pos present, newLocal?, if_pos twice]
      exact same.sees
    · have absent : ¬(stageIn (frame :: frames) name).isSome := fun present =>
        twice ((shows.isSome_iff name).1 present)
      rw [declareName, if_neg absent, newLocal?, if_neg twice]
      refine ⟨fun other => ?_, distance?_eq_address? (List.Forall₂.cons (fun other => ?_)
        (Matches.isSome h))⟩
      · change List.lookup other ((name, Stage.declared) :: frame) = _ ↔ _
        rw [lookup_put]
        by_cases this : other = name
        · simp [this]
        · simpa [this, Ne.symm this] using shows.ne_declared other
      · rw [lookup_put]
        by_cases this : other = name
        · simp [this]
        · simpa [this] using shows.isSome_iff other

theorem stageIn_isSome (h : Matches frames around) (name : String) :
    (stageIn frames name).isSome ↔
      ∃ innermost outer, around = innermost :: outer ∧ name ∈ innermost.names := by
  cases h with
  | nil => simp [stageIn]
  | cons shows _ => simpa [stageIn] using shows.isSome_iff name

/-- The scopes around the methods of a class that has no superclass. -/
theorem receiver (h : Matches frames around) (methods : List FunctionDecl) :
    Matches (receiverFrame :: frames) (aroundMethods false methods around) :=
  List.Forall₂.cons (Frame.shows_single "this") h

/-- The scopes around the methods of a class that has one. -/
theorem superclass (h : Matches frames around) (methods : List FunctionDecl) :
    Matches (receiverFrame :: superclassFrame :: frames) (aroundMethods true methods around) :=
  List.Forall₂.cons (Frame.shows_single "this")
    (List.Forall₂.cons (Frame.shows_single "super") h)

end Matches

/-- What a statement declares. -/
theorem Matches.after {frames : List Frame} {around : List LexicalScope} {s : Stmt}
    (h : Matches frames around) : Matches (s.after frames) (declareIn s.declared around) := by
  match s with
  | .varDecl name _ | .classDecl name _ _ => exact h.bind name.lexeme
  | .funDecl declaration => exact h.bind declaration.name.lexeme
  | .ifThen _ thenBranch => exact Matches.after (s := thenBranch) h
  | .ifElse _ thenBranch elseBranch =>
    have first := Matches.after (s := thenBranch) h
    have second := Matches.after (s := elseBranch) first
    rwa [← declareIn_append] at second
  | .whileLoop _ body => exact Matches.after (s := body) h
  | .expression _ | .print _ | .block _ | .returnStmt .. =>
    change Matches frames (declareIn [] around)
    rwa [declareIn_nil]

/-! ## Positions -/

/-- What the innermost function around a place makes of its position. -/
def functionPosition (sites : List Site) : FunctionPosition :=
  match functionAround? sites with
  | none => .outside
  | some (_, false) => .function
  | some (f, true) => if f.isInitializer then .initializer else .method

theorem functionPosition_outside (sites : List Site) :
    functionPosition sites = .outside ↔ functionAround? sites = none := by
  unfold functionPosition
  split
  · simp [*]
  · simp [*]
  · split <;> simp [*]

theorem functionPosition_initializer (sites : List Site) :
    functionPosition sites = .initializer ↔
      ∃ f, f.isInitializer ∧ functionAround? sites = some (f, true) := by
  unfold functionPosition
  split
  · simp [*]
  · simp [*]
  · split <;> simp_all

/-- What the innermost class around a place makes of its position. -/
def classPosition (sites : List Site) : ClassPosition :=
  match classAround? sites with
  | none => .outside
  | some false => .rootClass
  | some true => .subclass

/-- The position of a place. -/
def positionAt (sites : List Site) : Position :=
  { inFunction := functionPosition sites, inClass := classPosition sites }

/-- The position of what has the given scopes around it. -/
def positionIn (around : List LexicalScope) : Position :=
  positionAt (around.map LexicalScope.site)

@[simp] theorem sites_declareIn (names : List String) (around : List LexicalScope) :
    (declareIn names around).map LexicalScope.site = around.map LexicalScope.site := by
  cases around <;> rfl

theorem positionIn_declareIn (names : List String) (around : List LexicalScope) :
    positionIn (declareIn names around) = positionIn around := by
  rw [positionIn, sites_declareIn, positionIn]

theorem positionIn_block (body : List Stmt) (around : List LexicalScope) :
    positionIn ({ site := .block body, names := [] } :: around) = positionIn around := rfl

/-- Statements do not stand in the scopes around methods. -/
def Plain : List Site → Prop
  | .this _ :: _ => False
  | .super _ :: _ => False
  | _ => True

theorem positionAt_function {sites : List Site} (plain : Plain sites) (f : FunctionDecl) :
    positionAt (.body f :: sites) = { positionAt sites with inFunction := .function } := by
  match sites with
  | [] | .block _ :: _ | .body _ :: _ => rfl

/-- The position of a method of a class that has no superclass. -/
theorem positionAt_rootMethod {around : List LexicalScope}
    (plain : Plain (around.map LexicalScope.site)) (methods : List FunctionDecl)
    (f : FunctionDecl) :
    positionAt (.body f :: (aroundMethods false methods around).map LexicalScope.site) =
      { inFunction := if f.isInitializer then .initializer else .method, inClass := .rootClass } := by
  match around with
  | [] | ⟨.block _, _⟩ :: _ | ⟨.body _, _⟩ :: _ => rfl

/-- The position of a method of a class that has one. -/
theorem positionAt_method (around : List LexicalScope) (methods : List FunctionDecl)
    (f : FunctionDecl) :
    positionAt (.body f :: (aroundMethods true methods around).map LexicalScope.site) =
      { inFunction := if f.isInitializer then .initializer else .method, inClass := .subclass } :=
  rfl

end ClassScript
