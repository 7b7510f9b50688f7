import ClassScript.Proofs.Binding.Settled

set_option autoImplicit false

/-!
# Places in a program

The constructs around a place, with the scopes that are open there.  The scopes for the receiver and
the superclass stand around methods only, and no other scope has their words.  So the distances of
`this` and `super` tell in the text of which class a place is.
-/

namespace ClassScript

/-- The scope has names only. -/
def Frame.Named (frame : Frame) : Prop :=
  ∀ name, (frame.lookup name).isSome → IsName name

/-- The constructs and the scopes around a place where statements stand. -/
inductive Place : List Site → List Frame → Prop where
  | top : Place [] []
  | block {sites : List Site} {frames : List Frame} {frame : Frame} (body : List Stmt)
      (named : frame.Named) (outer : Place sites frames) :
      Place (.block body :: sites) (frame :: frames)
  | function {sites : List Site} {frames : List Frame} {frame : Frame} (f : FunctionDecl)
      (named : frame.Named) (outer : Place sites frames) :
      Place (.body f :: sites) (frame :: frames)
  | rootMethod {sites : List Site} {frames : List Frame} {frame : Frame} {f : FunctionDecl}
      {methods : List FunctionDecl} (declared : f ∈ methods) (named : frame.Named)
      (outer : Place sites frames) :
      Place (.body f :: .this methods :: sites) (frame :: receiverFrame :: frames)
  | method {sites : List Site} {frames : List Frame} {frame : Frame} {f : FunctionDecl}
      {methods : List FunctionDecl} (declared : f ∈ methods) (named : frame.Named)
      (outer : Place sites frames) :
      Place (.body f :: .this methods :: .super methods :: sites)
        (frame :: receiverFrame :: superclassFrame :: frames)

/-- The place lies in a method of the class with the given methods, within its functions and blocks
but in no class of its own: the scope for the receiver is the given number of scopes out. -/
structure InMethodOf (methods : List FunctionDecl) (nearer : Nat) (sites : List Site) : Prop where
  receiver : sites[nearer]? = some (.this methods)
  superclass : sites[nearer + 1]? = some (.super methods)
  method : ∃ k f, nearer = k + 1 ∧ sites[k]? = some (.body f) ∧ f ∈ methods ∧
    ∀ i < k, ∃ site, sites[i]? = some site ∧ ((∃ b, site = .block b) ∨ ∃ g, site = .body g)

/-- The place lies in the body of a method, within its functions and blocks but in no class of its own:
the scope for the body is the given number of scopes out, and that for its receiver is the next. -/
structure InBodyOf (f : FunctionDecl) (k : Nat) (sites : List Site) : Prop where
  body : sites[k]? = some (.body f)
  receiver : ∃ methods, sites[k + 1]? = some (.this methods) ∧ f ∈ methods
  inner : ∀ i < k, ∃ site, sites[i]? = some site ∧ ((∃ b, site = .block b) ∨ ∃ g, site = .body g)

theorem Frame.named_nil : Frame.Named [] := nofun

theorem Frame.Named.put {frame : Frame} (h : frame.Named) {name : String} (named : IsName name)
    (stage : Stage) : Frame.Named ((name, stage) :: frame) := by
  intro other found
  rw [lookup_put] at found
  split at found
  · rename_i same
    exact same ▸ named
  · exact h other found

namespace Place

variable {sites : List Site} {frames : List Frame}

theorem put (h : Place sites frames) {name : String} (named : IsName name) (stage : Stage) :
    Place sites (putName name stage frames) := by
  cases h with
  | top => exact .top
  | block body inner outer => exact .block body (inner.put named stage) outer
  | function f inner outer => exact .function f (inner.put named stage) outer
  | rootMethod declared inner outer => exact .rootMethod declared (inner.put named stage) outer
  | method declared inner outer => exact .method declared (inner.put named stage) outer

theorem declare (h : Place sites frames) {name : String} (named : IsName name) :
    Place sites (declareName name frames) := by
  unfold declareName
  split
  · exact h
  · exact h.put named .declared

theorem bind (h : Place sites frames) {name : String} (named : IsName name) :
    Place sites (bindName name frames) :=
  (h.declare named).put named .defined

theorem bindAll (h : Place sites frames) {names : List String} (named : ∀ n ∈ names, IsName n) :
    Place sites (bindNames names frames) := by
  induction names generalizing frames with
  | nil => exact h
  | cons name names ih =>
    exact ih (h.bind (named name List.mem_cons_self)) fun n hn =>
      named n (List.mem_cons_of_mem _ hn)

end Place

/-- What a statement declares leaves the place what it is. -/
theorem Place.after {sites : List Site} {frames : List Frame} {s : Stmt} (h : Place sites frames)
    (formed : s.WellFormed) : Place sites (s.after frames) := by
  match s with
  | .varDecl name _ => exact h.bind formed
  | .funDecl declaration => exact h.bind formed.name
  | .classDecl name _ _ => exact h.bind formed.1
  | .ifThen _ thenBranch => exact Place.after (s := thenBranch) h formed.1
  | .ifElse _ thenBranch elseBranch =>
    have first := Place.after (s := thenBranch) h formed.1.1
    exact Place.after (s := elseBranch) first formed.2.1
  | .whileLoop _ body => exact Place.after (s := body) h formed.1
  | .expression _ | .print _ | .block _ | .returnStmt .. => exact h

theorem Place.visitsAt {sites : List Site} {frames : List Frame} {rs : List Reference} {v : Visit}
    (h : Place sites frames) (hv : v ∈ visitsAt sites frames rs) : Place v.sites v.scopes := by
  obtain ⟨-, same, same'⟩ := mem_visitsAt.1 hv
  rwa [same, same']

mutual

/-- Where a statement stands at a place, so do the references in it. -/
theorem Stmt.place_visits {s : Stmt} {sites : List Site} {frames : List Frame}
    (formed : s.WellFormed) (h : Place sites frames) :
    ∀ v ∈ s.visits sites frames, Place v.sites v.scopes := by
  intro v hv
  match s with
  | .expression _ | .print _ | .returnStmt .. => exact h.visitsAt hv
  | .varDecl name _ => exact (h.declare formed).visitsAt hv
  | .block body => exact Stmt.place_visitsAll formed (.block body Frame.named_nil h) v hv
  | .ifThen condition thenBranch =>
    rcases List.mem_append.1 hv with hv | hv
    · exact h.visitsAt hv
    · exact Stmt.place_visits formed.1 h v hv
  | .ifElse condition thenBranch elseBranch =>
    rcases List.mem_append.1 hv with hv | hv
    · rcases List.mem_append.1 hv with hv | hv
      · exact h.visitsAt hv
      · exact Stmt.place_visits formed.1.1 h v hv
    · exact Stmt.place_visits formed.2.1 (h.after formed.1.1) v hv
  | .whileLoop condition body =>
    rcases List.mem_append.1 hv with hv | hv
    · exact h.visitsAt hv
    · exact Stmt.place_visits formed.1 h v hv
  | .funDecl declaration =>
    obtain ⟨name, parameters, body⟩ := declaration
    have named : ∀ n ∈ parameters.map Token.lexeme, IsName n := by simpa using formed.2.1
    have inside := (Place.function ⟨name, parameters, body⟩ Frame.named_nil
      (h.bind formed.1)).bindAll named
    exact Stmt.place_visitsAll formed.2.2 inside v hv
  | .classDecl name none methods =>
    exact FunctionDecl.place_visitsAll formed.2.2
      (fun f hf frame named => .rootMethod hf named (h.bind formed.1)) v hv
  | .classDecl name (some e) methods =>
    rcases List.mem_append.1 hv with hv | hv
    · exact (h.bind formed.1).visitsAt hv
    · exact FunctionDecl.place_visitsAll formed.2.2
        (fun f hf frame named => .method hf named (h.bind formed.1)) v hv

theorem Stmt.place_visitsAll {ss : List Stmt} {sites : List Site} {frames : List Frame}
    (formed : Stmt.WellFormedAll ss) (h : Place sites frames) :
    ∀ v ∈ Stmt.visitsAll sites frames ss, Place v.sites v.scopes := by
  intro v hv
  match ss with
  | [] => cases hv
  | s :: ss =>
    rcases List.mem_append.1 hv with hv | hv
    · exact Stmt.place_visits formed.1 h v hv
    · exact Stmt.place_visitsAll formed.2 (h.after formed.1) v hv

/-- So it is with the references in methods, where each of them has its place. -/
theorem FunctionDecl.place_visitsAll {fs : List FunctionDecl} {sites : List Site}
    {frames : List Frame} (formed : FunctionDecl.WellFormedAll fs)
    (h : ∀ f ∈ fs, ∀ frame : Frame, frame.Named → Place (.body f :: sites) (frame :: frames)) :
    ∀ v ∈ FunctionDecl.visitsAll sites frames fs, Place v.sites v.scopes := by
  intro v hv
  match fs with
  | [] => cases hv
  | ⟨name, parameters, body⟩ :: fs =>
    have named : ∀ n ∈ parameters.map Token.lexeme, IsName n := by simpa using formed.1.2.1
    rcases List.mem_append.1 hv with hv | hv
    · have inside := (h _ List.mem_cons_self [] Frame.named_nil).bindAll named
      exact Stmt.place_visitsAll formed.1.2.2 inside v hv
    · exact FunctionDecl.place_visitsAll formed.2 (fun f hf => h f (List.mem_cons_of_mem _ hf)) v hv

end

/-! ## Distances of the receiver and the superclass -/

theorem Frame.Named.distance?_succ {frame : Frame} (h : frame.Named) {name : String} {d : Nat}
    {frames : List Frame} (reserved : ¬IsName name)
    (found : distance? name (frame :: frames) = some d) :
    ∃ n, d = n + 1 ∧ distance? name frames = some n := by
  have absent : ¬(frame.lookup name).isSome := fun found => reserved (h name found)
  rw [distance?, if_neg absent] at found
  obtain ⟨n, hn, rfl⟩ := Option.map_eq_some_iff.1 found
  exact ⟨n, rfl, hn⟩

theorem not_isName_this : ¬IsName "this" := fun h => h.1 rfl

theorem not_isName_super : ¬IsName "super" := fun h => h.2 rfl

/-- Where the superclass is next to the receiver, it is so from outside a named scope too. -/
theorem Frame.Named.receiver_succ {frame : Frame} (h : frame.Named) {nearer : Nat}
    {frames : List Frame} (receiver : distance? "this" (frame :: frames) = some nearer)
    (superclass : distance? "super" (frame :: frames) = some (nearer + 1)) :
    ∃ n, nearer = n + 1 ∧ distance? "this" frames = some n ∧
      distance? "super" frames = some (n + 1) := by
  obtain ⟨n, rfl, near⟩ := h.distance?_succ not_isName_this receiver
  obtain ⟨m, same, far⟩ := h.distance?_succ not_isName_super superclass
  obtain rfl : n + 1 = m := Nat.succ.inj same
  exact ⟨n, rfl, near, far⟩

theorem InMethodOf.enter {methods : List FunctionDecl} {nearer : Nat} {sites : List Site}
    {site : Site} (h : InMethodOf methods nearer sites)
    (plain : (∃ b, site = .block b) ∨ ∃ g, site = .body g) :
    InMethodOf methods (nearer + 1) (site :: sites) := by
  obtain ⟨receiver, superclass, k, f, rfl, body, declared, inner⟩ := h
  refine ⟨receiver, superclass, k + 1, f, rfl, body, declared, fun i hi => ?_⟩
  cases i with
  | zero => exact ⟨site, rfl, plain⟩
  | succ i => exact inner i (Nat.lt_of_succ_lt_succ hi)

theorem InBodyOf.enter {f : FunctionDecl} {k : Nat} {sites : List Site} {site : Site}
    (h : InBodyOf f k sites) (plain : (∃ b, site = .block b) ∨ ∃ g, site = .body g) :
    InBodyOf f (k + 1) (site :: sites) := by
  refine ⟨h.body, h.receiver, fun i hi => ?_⟩
  cases i with
  | zero => exact ⟨site, rfl, plain⟩
  | succ i => exact h.inner i (Nat.lt_of_succ_lt_succ hi)

/-- The innermost scope of a place has neither word. -/
theorem Place.distance?_ne_zero {sites : List Site} {frames : List Frame} {name : String}
    (h : Place sites frames) (reserved : ¬IsName name) : distance? name frames ≠ some 0 := by
  intro found
  cases h with
  | top => cases found
  | block _ named _ | function _ named _ | rootMethod _ named _ | method _ named _ =>
    obtain ⟨n, same, -⟩ := named.distance?_succ reserved found
    cases same

/-- Where the superclass is one scope beyond the receiver, the place lies in a method of a class with
a superclass. -/
theorem Place.inMethodOf {sites : List Site} {frames : List Frame} {nearer : Nat}
    (h : Place sites frames) (receiver : distance? "this" frames = some nearer)
    (superclass : distance? "super" frames = some (nearer + 1)) :
    ∃ methods, InMethodOf methods nearer sites := by
  induction h generalizing nearer with
  | top => cases receiver
  | block body named outer ih =>
    obtain ⟨n, rfl, near, far⟩ := named.receiver_succ receiver superclass
    obtain ⟨methods, within⟩ := ih near far
    exact ⟨methods, within.enter (.inl ⟨body, rfl⟩)⟩
  | function f named outer ih =>
    obtain ⟨n, rfl, near, far⟩ := named.receiver_succ receiver superclass
    obtain ⟨methods, within⟩ := ih near far
    exact ⟨methods, within.enter (.inr ⟨f, rfl⟩)⟩
  | @rootMethod _ frames _ _ _ declared named outer ih =>
    obtain ⟨n, rfl, near, far⟩ := named.receiver_succ receiver superclass
    obtain rfl : 0 = n := Option.some.inj near
    -- the superclass would have to be among the names of the scope around the class
    change (distance? "super" frames).map (· + 1) = some 1 at far
    obtain ⟨m, found, same⟩ := Option.map_eq_some_iff.1 far
    obtain rfl : m = 0 := Nat.succ.inj same
    exact absurd found (outer.distance?_ne_zero not_isName_super)
  | @method _ _ _ f methods declared named outer ih =>
    obtain ⟨n, rfl, near⟩ := named.distance?_succ not_isName_this receiver
    obtain rfl : 0 = n := Option.some.inj near
    exact ⟨methods, rfl, rfl, 0, f, rfl, rfl, declared, fun i hi => absurd hi (Nat.not_lt_zero i)⟩

/-- Where the receiver is known, the place lies in the body of a method. -/
theorem Place.inBodyOf {sites : List Site} {frames : List Frame} {d : Nat}
    (h : Place sites frames) (receiver : distance? "this" frames = some d) :
    ∃ k f, d = k + 1 ∧ InBodyOf f k sites := by
  induction h generalizing d with
  | top => cases receiver
  | block body named outer ih =>
    obtain ⟨n, rfl, near⟩ := named.distance?_succ not_isName_this receiver
    obtain ⟨k, f, rfl, within⟩ := ih near
    exact ⟨k + 1, f, rfl, within.enter (.inl ⟨body, rfl⟩)⟩
  | function g named outer ih =>
    obtain ⟨n, rfl, near⟩ := named.distance?_succ not_isName_this receiver
    obtain ⟨k, f, rfl, within⟩ := ih near
    exact ⟨k + 1, f, rfl, within.enter (.inr ⟨g, rfl⟩)⟩
  | @rootMethod _ _ _ f methods declared named outer ih
  | @method _ _ _ f methods declared named outer ih =>
    obtain ⟨n, rfl, near⟩ := named.distance?_succ not_isName_this receiver
    obtain rfl : 0 = n := Option.some.inj near
    exact ⟨0, f, rfl, rfl, ⟨methods, rfl, declared⟩, fun i hi => absurd hi (Nat.not_lt_zero i)⟩

end ClassScript
