import ClassScript.Proofs.Grammar.Rules
import ClassScript.Tree.Parse

set_option autoImplicit false

/-!
# What steps of reading do

A step of reading takes tokens off the front of what is left and reports diagnostics behind those
that were reported before.  `Reads` says which, and `Sound d G p` says of a step `p` that whatever
it takes and yields is related by `G`, unless it reported something that the dialect `d` does not
tolerate.  The rules below let a statement of this kind be proved along the text of a step.
-/

namespace ClassScript

open Grammar

/-! ## Diagnostics that leave the reading on course -/

/-- Whether a diagnostic is reported without stopping the declaration it was found in. -/
def Diagnostic.isSoft : Diagnostic → Bool
  | .grammar _ .invalidAssignmentTarget => true
  | .grammar _ .tooManyParameters => true
  | .grammar _ .tooManyArguments => true
  | _ => false

/-- A strict dialect tolerates nothing, the other one what does not stop a declaration. -/
def Grammar.Dialect.Tolerates (d : Dialect) (x : Diagnostic) : Prop :=
  d.strict = false ∧ x.isSoft = true

theorem Grammar.Dialect.Tolerates.lax {d : Dialect} {x : Diagnostic} (h : d.Tolerates x) :
    ¬ d.strict = true := by
  simp [h.1]

namespace Parser

/-! ## Reading tokens -/

/-- From one state to the other the tokens `ts` were read and the diagnostics `ds` reported. -/
structure Reads (ts : List Token) (ds : List Diagnostic) (c c' : Cursor) : Prop where
  rest : c.rest = ts ++ c'.rest
  closing : c'.closing = c.closing
  faults : c'.faults.toList = c.faults.toList ++ ds

theorem Reads.refl (c : Cursor) : Reads [] [] c c :=
  ⟨rfl, rfl, by simp⟩

theorem Reads.trans {ts us : List Token} {ds es : List Diagnostic} {c c₁ c₂ : Cursor}
    (h : Reads ts ds c c₁) (k : Reads us es c₁ c₂) : Reads (ts ++ us) (ds ++ es) c c₂ :=
  ⟨by rw [h.rest, k.rest, List.append_assoc], k.closing.trans h.closing,
    by rw [k.faults, h.faults, List.append_assoc]⟩

/-! ## Steps in sequence -/

variable {α β : Type}

theorem bind_eq_ok {p : Parser α} {f : α → Parser β} {c c' : Cursor} {b : β} :
    (p >>= f) c = .ok b c' ↔ ∃ a c₁, p c = .ok a c₁ ∧ f a c₁ = .ok b c' := by
  change EStateM.bind p f c = _ ↔ _
  unfold EStateM.bind
  cases p c <;> simp [and_assoc]

/-- A step that succeeds hands over to the next one. -/
theorem bind_of_ok {p : Parser α} {f : α → Parser β} {c c₁ : Cursor} {a : α}
    (h : p c = .ok a c₁) : (p >>= f) c = f a c₁ := by
  change EStateM.bind p f c = _
  rw [EStateM.bind, h]

theorem bind_eq_error {p : Parser α} {f : α → Parser β} {c c' : Cursor} {e : Halt} :
    (p >>= f) c = .error e c' ↔
      p c = .error e c' ∨ ∃ a c₁, p c = .ok a c₁ ∧ f a c₁ = .error e c' := by
  change EStateM.bind p f c = _ ↔ _
  unfold EStateM.bind
  cases p c <;> simp [and_assoc]

/-! ## Soundness -/

/-- What the step takes, what it yields and what it leaves are related by `G`, unless it reported
something that the dialect does not tolerate; and it never stops with a fault that could be
tolerated.  The state must have the end of the source for its closing token. -/
structure Sound (d : Dialect) (G : List Token → α → List Token → Prop) (p : Parser α) : Prop where
  ok : ∀ {c c' : Cursor} {a : α}, c.closing.kind = .endOfSource → p c = .ok a c' →
    ∃ ts ds, Reads ts ds c c' ∧ ((∀ x ∈ ds, d.Tolerates x) → G ts a c'.rest)
  fault : ∀ {c c' : Cursor} {x : Diagnostic}, c.closing.kind = .endOfSource →
    p c = .error (.fault x) c' → (∃ ts ds, Reads ts ds c c') ∧ x.isSoft = false

namespace Sound

variable {d : Dialect} {G : List Token → α → List Token → Prop}
  {K : List Token → β → List Token → Prop}

theorem mono {G' : List Token → α → List Token → Prop} {p : Parser α} (h : Sound d G p)
    (imp : ∀ ts a rest, G ts a rest → G' ts a rest) : Sound d G' p where
  ok hc hp := by
    obtain ⟨ts, ds, reads, good⟩ := h.ok hc hp
    exact ⟨ts, ds, reads, fun tolerated => imp _ _ _ (good tolerated)⟩
  fault := h.fault

protected theorem pure {a : α} (h : ∀ rest, G [] a rest) : Sound d G (pure a) where
  ok := by
    rintro c c' b - hp
    obtain ⟨rfl, rfl⟩ : a = b ∧ c = c' := by simpa [pure, EStateM.pure] using hp
    exact ⟨[], [], .refl c, fun _ => h c.rest⟩
  fault := by
    rintro c c' x - hp
    simp [pure, EStateM.pure] at hp

/-- Two steps: the second one is related to what the first one took and yielded. -/
protected theorem bind {p : Parser α} {f : α → Parser β} (hp : Sound d G p)
    (hf : ∀ a, Sound d (fun us b rest => ∀ ts, G ts a (us ++ rest) → K (ts ++ us) b rest) (f a)) :
    Sound d K (p >>= f) where
  ok := by
    intro c c' b hc h
    obtain ⟨a, c₁, h₁, h₂⟩ := bind_eq_ok.1 h
    obtain ⟨ts, ds, reads₁, good₁⟩ := hp.ok hc h₁
    obtain ⟨us, es, reads₂, good₂⟩ := (hf a).ok (by rw [reads₁.closing]; exact hc) h₂
    refine ⟨ts ++ us, ds ++ es, reads₁.trans reads₂, fun tolerated => ?_⟩
    have first := good₁ fun x hx => tolerated x (List.mem_append_left _ hx)
    rw [reads₂.rest] at first
    exact good₂ (fun x hx => tolerated x (List.mem_append_right _ hx)) ts first
  fault := by
    intro c c' x hc h
    obtain h | ⟨a, c₁, h₁, h₂⟩ := bind_eq_error.1 h
    · exact hp.fault hc h
    · obtain ⟨ts, ds, reads₁, -⟩ := hp.ok hc h₁
      obtain ⟨⟨us, es, reads₂⟩, hard⟩ := (hf a).fault (by rw [reads₁.closing]; exact hc) h₂
      exact ⟨⟨_, _, reads₁.trans reads₂⟩, hard⟩

/-- A step whose result is only dressed up. -/
theorem bind_pure {p : Parser α} {f : α → β} (hp : Sound d G p)
    (hf : ∀ ts a rest, G ts a rest → K ts (f a) rest) :
    Sound d K (p >>= fun a => Pure.pure (f a)) :=
  hp.bind fun a => Sound.pure fun rest ts h => by
    rw [List.append_nil]
    exact hf ts a rest h

theorem map {p : Parser α} {f : α → β} (hp : Sound d G p)
    (hf : ∀ ts a rest, G ts a rest → K ts (f a) rest) : Sound d K (f <$> p) := by
  rw [map_eq_pure_bind]
  exact hp.bind_pure hf

/-- A step that neither takes a token nor reports anything. -/
theorem quiet_bind {p : Parser α} {f : α → Parser β}
    (quiet : ∀ c, ∃ a c₁, p c = .ok a c₁ ∧ Reads [] [] c c₁) (hf : ∀ a, Sound d K (f a)) :
    Sound d K (p >>= f) where
  ok := by
    intro c c' b hc h
    obtain ⟨a, c₁, h₁, h₂⟩ := bind_eq_ok.1 h
    obtain ⟨a', c₁', h', reads⟩ := quiet c
    obtain ⟨rfl, rfl⟩ : a = a' ∧ c₁ = c₁' := by simpa [h₁] using h'
    obtain ⟨ts, ds, reads', good⟩ := (hf a).ok (by rw [reads.closing]; exact hc) h₂
    exact ⟨ts, ds, reads.trans reads', good⟩
  fault := by
    intro c c' x hc h
    obtain ⟨a', c₁', h', reads⟩ := quiet c
    obtain h | ⟨a, c₁, h₁, h₂⟩ := bind_eq_error.1 h
    · simp [h'] at h
    · obtain ⟨rfl, rfl⟩ : a = a' ∧ c₁ = c₁' := by simpa [h₁] using h'
      obtain ⟨⟨ts, ds, reads'⟩, hard⟩ := (hf a).fault (by rw [reads.closing]; exact hc) h₂
      exact ⟨⟨_, _, reads.trans reads'⟩, hard⟩

/-- What follows a report counts only if the report is tolerated. -/
theorem report_bind {token : Token} {fault : GrammarFault} {f : Unit → Parser β}
    (hf : Sound d (fun us b rest => d.Tolerates (.grammar token fault) → K us b rest) (f ())) :
    Sound d K (report token fault >>= f) := by
  have reported : Sound d (fun ts _ _ => ts = [] ∧ d.Tolerates (.grammar token fault))
      (report token fault) := by
    constructor
    · rintro c c' a - h
      cases h
      exact ⟨[], [.grammar token fault], ⟨rfl, rfl, by simp⟩, fun tolerated =>
        ⟨rfl, tolerated _ (List.mem_singleton.2 rfl)⟩⟩
    · rintro c c' x - h
      cases h
  refine reported.bind fun _ => hf.mono ?_
  rintro us b rest h ts ⟨rfl, tolerated⟩
  exact h tolerated

/-- A look at the next token: it is the first one of what follows, or the end. -/
theorem peek_bind {f : Token → Parser β}
    (hf : ∀ t, Sound d (fun us b rest => (∀ r ∈ (us ++ rest).head?, r = t) →
      (us ++ rest = [] → t.kind = .endOfSource) → K us b rest) (f t)) :
    Sound d K (peek >>= f) where
  ok := by
    intro c c' b hc h
    obtain ⟨ts, ds, reads, good⟩ := (hf (c.rest.head?.getD c.closing)).ok hc h
    refine ⟨ts, ds, reads, fun tolerated => good tolerated ?_ ?_⟩
    · intro r hr
      rw [← reads.rest] at hr
      rw [Option.mem_def.1 hr, Option.getD_some]
    · intro empty
      rw [← reads.rest] at empty
      rwa [empty]
  fault := by
    intro c c' x hc h
    exact (hf _).fault hc h

/-- A test for the end: nothing follows, or something does. -/
theorem atEnd_bind {f : Bool → Parser β}
    (yes : Sound d (fun us b rest => us ++ rest = [] → K us b rest) (f true))
    (no : Sound d K (f false)) : Sound d K (atEnd >>= f) where
  ok := by
    intro c c' b hc h
    change f c.rest.isEmpty c = _ at h
    cases ended : c.rest with
    | nil =>
      obtain ⟨ts, ds, reads, good⟩ := yes.ok (c := c) hc (by simpa [ended] using h)
      exact ⟨ts, ds, reads, fun tolerated => good tolerated (by rw [← reads.rest, ended])⟩
    | cons t rest => exact no.ok (c := c) hc (by simpa [ended] using h)
  fault := by
    intro c c' x hc h
    change f c.rest.isEmpty c = _ at h
    cases ended : c.rest with
    | nil => exact yes.fault (c := c) hc (by simpa [ended] using h)
    | cons t rest => exact no.fault (c := c) hc (by simpa [ended] using h)

theorem exhausted : Sound d G (exhausted : Parser α) where
  ok := by
    rintro c c' a - h
    cases h
  fault := by
    rintro c c' x - h
    cases h

theorem fail {fault : GrammarFault} (hard : ∀ t, (Diagnostic.grammar t fault).isSoft = false) :
    Sound d G (fail fault : Parser α) where
  ok := by
    rintro c c' a - h
    cases h
  fault := by
    rintro c c' x - h
    cases h
    exact ⟨⟨[], [], .refl c⟩, hard _⟩

end Sound

/-! ## The steps that take no token -/

theorem quiet_check (kind : TokenKind) (c : Cursor) :
    ∃ a c₁, check kind c = .ok a c₁ ∧ Reads [] [] c c₁ := ⟨_, _, rfl, .refl c⟩

theorem quiet_atEnd (c : Cursor) : ∃ a c₁, atEnd c = .ok a c₁ ∧ Reads [] [] c c₁ :=
  ⟨_, _, rfl, .refl c⟩

theorem quiet_get (c : Cursor) : ∃ a c₁, (get : Parser Cursor) c = .ok a c₁ ∧ Reads [] [] c c₁ :=
  ⟨_, _, rfl, .refl c⟩

theorem quiet_freshId (c : Cursor) : ∃ a c₁, freshId c = .ok a c₁ ∧ Reads [] [] c c₁ :=
  ⟨_, _, rfl, ⟨rfl, rfl, by simp⟩⟩

/-! ## The steps that take tokens -/

/-- No token of the given kinds comes next. -/
def Stops (kinds : List TokenKind) (rest : List Token) : Prop :=
  ∀ t ∈ rest.head?, t.kind ∉ kinds

theorem acceptAny?_of_mem {kinds : List TokenKind} {c : Cursor} {t : Token} {rest : List Token}
    (hc : c.rest = t :: rest) (ht : t.kind ∈ kinds) :
    acceptAny? kinds c = .ok (some t) { c with rest } := by
  have chosen : acceptAny? kinds c =
      (if t.kind ∈ kinds then (do set { c with rest }; pure (some t)) else pure none :
        Parser (Option Token)) c := by
    unfold acceptAny?
    simp only [bind, EStateM.bind, get, getThe, MonadStateOf.get, EStateM.get, hc]
  rw [chosen, if_pos ht]
  rfl

theorem acceptAny?_of_stops {kinds : List TokenKind} {c : Cursor} (hc : Stops kinds c.rest) :
    acceptAny? kinds c = .ok none c := by
  unfold acceptAny?
  simp only [bind, EStateM.bind, get, getThe, MonadStateOf.get, EStateM.get]
  cases h : c.rest with
  | nil => rfl
  | cons t rest =>
    have ht : t.kind ∉ kinds := hc t (by simp [h])
    simp only [ht, if_false]
    rfl

/-- The two ways in which a choice of tokens can go. -/
theorem acceptAny?_cases (kinds : List TokenKind) (c : Cursor) :
    (∃ t rest, c.rest = t :: rest ∧ t.kind ∈ kinds ∧
      acceptAny? kinds c = .ok (some t) { c with rest }) ∨
    (Stops kinds c.rest ∧ acceptAny? kinds c = .ok none c) := by
  by_cases h : Stops kinds c.rest
  · exact .inr ⟨h, acceptAny?_of_stops h⟩
  · simp only [Stops, not_forall, not_not] at h
    obtain ⟨t, ht, mem⟩ := h
    obtain ⟨rest, hc⟩ := List.head?_eq_some_iff.1 ht
    exact .inl ⟨t, rest, hc, mem, acceptAny?_of_mem hc mem⟩

theorem reads_one {c : Cursor} {t : Token} {rest : List Token} (h : c.rest = t :: rest) :
    Reads [t] [] c { c with rest } :=
  ⟨h, rfl, by simp⟩

namespace Sound

variable {d : Dialect} {K : List Token → β → List Token → Prop}

/-- After a choice of tokens: with a token, or before none of these tokens. -/
theorem acceptAny?_bind {kinds : List TokenKind} {f : Option Token → Parser β}
    (yes : ∀ t, t.kind ∈ kinds → Sound d (fun us b rest => K (t :: us) b rest) (f (some t)))
    (no : Sound d (fun us b rest => Stops kinds (us ++ rest) → K us b rest) (f none)) :
    Sound d K (acceptAny? kinds >>= f) where
  ok := by
    intro c c' b hc h
    obtain ⟨a, c₁, h₁, h₂⟩ := bind_eq_ok.1 h
    obtain ⟨t, rest, e, mem, h'⟩ | ⟨stops, h'⟩ := acceptAny?_cases kinds c
    · obtain ⟨rfl, rfl⟩ : a = some t ∧ c₁ = { c with rest } := by
        simpa [h₁] using h'
      obtain ⟨us, es, reads, good⟩ := (yes t mem).ok (c := { c with rest }) hc h₂
      exact ⟨[t] ++ us, [] ++ es, (reads_one e).trans reads, good⟩
    · obtain ⟨rfl, rfl⟩ : a = none ∧ c₁ = c := by simpa [h₁] using h'
      obtain ⟨us, es, reads, good⟩ := no.ok hc h₂
      exact ⟨us, es, reads, fun tolerated => good tolerated (reads.rest ▸ stops)⟩
  fault := by
    intro c c' x hc h
    obtain ⟨t, rest, e, mem, h'⟩ | ⟨stops, h'⟩ := acceptAny?_cases kinds c
    · obtain h | ⟨a, c₁, h₁, h₂⟩ := bind_eq_error.1 h
      · simp [h'] at h
      obtain ⟨rfl, rfl⟩ : a = some t ∧ c₁ = { c with rest } := by
        simpa [h₁] using h'
      obtain ⟨⟨us, es, reads⟩, hard⟩ := (yes t mem).fault (c := { c with rest }) hc h₂
      exact ⟨⟨_, _, (reads_one e).trans reads⟩, hard⟩
    · obtain h | ⟨a, c₁, h₁, h₂⟩ := bind_eq_error.1 h
      · simp [h'] at h
      obtain ⟨rfl, rfl⟩ : a = none ∧ c₁ = c := by simpa [h₁] using h'
      exact no.fault hc h₂

theorem accept?_bind {kind : TokenKind} {f : Option Token → Parser β}
    (yes : ∀ t, t.kind = kind → Sound d (fun us b rest => K (t :: us) b rest) (f (some t)))
    (no : Sound d (fun us b rest => Stops [kind] (us ++ rest) → K us b rest) (f none)) :
    Sound d K (accept? kind >>= f) :=
  acceptAny?_bind (fun t ht => yes t (by simpa using ht)) no

theorem accept_bind {kind : TokenKind} {f : Bool → Parser β}
    (yes : ∀ t, t.kind = kind → Sound d (fun us b rest => K (t :: us) b rest) (f true))
    (no : Sound d (fun us b rest => Stops [kind] (us ++ rest) → K us b rest) (f false)) :
    Sound d K (accept kind >>= f) := by
  rw [accept, bind_assoc]
  exact accept?_bind (f := fun a => pure a.isSome >>= f)
    (fun t ht => by simpa using yes t ht) (by simpa using no)

theorem expect_bind {kind : TokenKind} {what : Expected} {f : Token → Parser β}
    (yes : ∀ t, t.kind = kind → Sound d (fun us b rest => K (t :: us) b rest) (f t)) :
    Sound d K (expect kind what >>= f) := by
  rw [expect, bind_assoc]
  refine accept?_bind (fun t ht => by simpa using yes t ht) ?_
  exact Sound.fail fun _ => rfl

end Sound

/-! ## Recovery -/

theorem dropToBoundary_suffix (previous : Token) (tokens : List Token) :
    ∃ dropped, tokens = dropped ++ dropToBoundary previous tokens := by
  induction tokens generalizing previous with
  | nil => exact ⟨[], rfl⟩
  | cons t rest ih =>
    rw [dropToBoundary]
    split
    · exact ⟨[], rfl⟩
    · obtain ⟨dropped, h⟩ := ih t
      exact ⟨t :: dropped, by rw [List.cons_append, ← h]⟩

theorem synchronize_suffix (tokens : List Token) :
    ∃ dropped, tokens = dropped ++ synchronize tokens := by
  cases tokens with
  | nil => exact ⟨[], rfl⟩
  | cons t rest =>
    obtain ⟨dropped, h⟩ := dropToBoundary_suffix t rest
    exact ⟨t :: dropped, by rw [synchronize, List.cons_append, ← h]⟩

/-- A step that recovers yields nothing only after a fault that is not tolerated. -/
theorem Sound.recovering {d : Dialect} {G : List Token → α → List Token → Prop}
    {step : Parser α} (h : Sound d G step) :
    Sound d (fun ts a rest => ∃ b, a = some b ∧ G ts b rest) (recovering step) where
  ok := by
    intro c c' a hc hp
    unfold Parser.recovering at hp
    split at hp
    · rename_i b c₁ hstep
      cases hp
      obtain ⟨ts, ds, reads, good⟩ := h.ok hc hstep
      exact ⟨ts, ds, reads, fun tolerated => ⟨b, rfl, good tolerated⟩⟩
    · rename_i x c₁ hstep
      cases hp
      obtain ⟨⟨ts, ds, reads⟩, hard⟩ := h.fault hc hstep
      obtain ⟨dropped, hdropped⟩ := synchronize_suffix c₁.rest
      refine ⟨ts ++ dropped, ds ++ [x], ⟨?_, reads.closing, ?_⟩, fun tolerated => ?_⟩
      · rw [reads.rest, List.append_assoc]
        exact congrArg (ts ++ ·) hdropped
      · simp [reads.faults]
      · have := (tolerated x (by simp)).2
        simp [hard] at this
    · cases hp
  fault := by
    intro c c' x hc hp
    unfold Parser.recovering at hp
    split at hp <;> cases hp

end Parser

end ClassScript
