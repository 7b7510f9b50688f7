import ClassScript.Tree.Listing
import Mathlib

set_option autoImplicit false

/-!
# The shape of a listing

A listing consists of words and of forms, whose parts stand between parentheses, one blank apart, and
which may have a label in front.  Words and labels have neither blanks nor parentheses in them, so
it can be seen from a text alone where its first word or form ends.  Therefore a text is the listing
of one shape at most.
-/

namespace ClassScript

/-! ## Shapes -/

/-- What is seen of a listing: a word, or a form with its label and its parts. -/
inductive Shape where
  | word (text : String)
  | form (label : String) (parts : List Shape)

/-- Blanks and parentheses structure a listing; all other characters are plain. -/
def isPlain (c : Char) : Bool :=
  c != ' ' && c != '(' && c != ')'

namespace Shape

mutual

/-- The text of a shape: a word as it is, a form between parentheses after its label. -/
def listing : Shape → String
  | .word text => text
  | .form label parts => label ++ ClassScript.form (listings parts)

/-- The texts of shapes. -/
def listings : List Shape → List String
  | [] => []
  | p :: ps => p.listing :: listings ps

end

mutual

/-- All words and labels are of plain characters, and no word is empty. -/
def Proper : Shape → Prop
  | .word text => text.toList ≠ [] ∧ ∀ c ∈ text.toList, isPlain c
  | .form label parts => (∀ c ∈ label.toList, isPlain c) ∧ AllProper parts

/-- Shapes that are all proper. -/
def AllProper : List Shape → Prop
  | [] => True
  | p :: ps => p.Proper ∧ AllProper ps

end

/-! ## Characters -/

/-- The parts of a form after the first, each with its blank. -/
def later (ps : List Shape) : List Char :=
  ps.flatMap fun p => ' ' :: p.listing.toList

/-- What stands between the parentheses of a form. -/
def inner : List Shape → List Char
  | [] => []
  | p :: ps => p.listing.toList ++ later ps

theorem listings_eq_map (ps : List Shape) : listings ps = ps.map listing := by
  induction ps with
  | nil => rfl
  | cons p ps ih => rw [listings, ih, List.map_cons]

theorem toList_intercalate (ps : List Shape) :
    (" ".intercalate (ps.map listing)).toList = inner ps := by
  cases ps with
  | nil => rfl
  | cons p ps =>
    induction ps generalizing p with
    | nil => simp [inner, later]
    | cons q ps ih =>
      have rest := ih q
      rw [List.map_cons] at rest
      simp [rest, inner, later]

/-- A form, and what follows it. -/
theorem form_append (label : String) (ps : List Shape) (cs : List Char) :
    (form label ps).listing.toList ++ cs = label.toList ++ '(' :: (inner ps ++ ')' :: cs) := by
  rw [listing, ClassScript.form, listings_eq_map, String.toList_append, String.toList_append,
    String.toList_append, toList_intercalate]
  simp

/-- A proper shape starts with a plain character or a parenthesis that opens. -/
theorem Proper.head {a : Shape} (h : a.Proper) :
    ∃ c cs, a.listing.toList = c :: cs ∧ (isPlain c ∨ c = '(') := by
  cases a with
  | word text =>
    obtain ⟨nonempty, plain⟩ := h
    obtain ⟨c, cs, same⟩ := List.exists_cons_of_ne_nil nonempty
    exact ⟨c, cs, same, .inl (plain c (same ▸ List.mem_cons_self))⟩
  | form label parts =>
    obtain ⟨plain, -⟩ := h
    rw [← List.append_nil (listing _).toList, form_append]
    cases named : label.toList with
    | nil => exact ⟨'(', _, rfl, .inr rfl⟩
    | cons c cs => exact ⟨c, _, rfl, .inl (plain c (named ▸ List.mem_cons_self))⟩

end Shape

/-! ## Where plain characters end -/

/-- The text does not go on with a plain character. -/
def Breaks (cs : List Char) : Prop :=
  ∀ c ∈ cs.head?, isPlain c = false

/-- The text is what may follow a shape: nothing, a blank, or a parenthesis that closes. -/
def Ends (cs : List Char) : Prop :=
  ∀ c ∈ cs.head?, c = ' ' ∨ c = ')'

theorem Ends.nil : Ends [] := nofun

theorem Ends.closed (cs : List Char) : Ends (')' :: cs) := by
  rintro c ⟨⟩
  exact .inr rfl

theorem Ends.later (ps : List Shape) (cs : List Char) : Ends (Shape.later ps ++ ')' :: cs) := by
  cases ps with
  | nil => exact .closed cs
  | cons p ps =>
    rintro c ⟨⟩
    exact .inl rfl

theorem Ends.breaks {cs : List Char} (h : Ends cs) : Breaks cs := by
  intro c first
  rcases h c first with rfl | rfl <;> rfl

theorem Ends.not_open {cs : List Char} : ¬Ends ('(' :: cs) := by
  intro h
  rcases h '(' rfl with same | same <;> cases same

theorem breaks_open (cs : List Char) : Breaks ('(' :: cs) := by
  rintro c ⟨⟩
  rfl

/-- Plain characters before a break are all up to the break. -/
theorem takeWhile_plain {w cs : List Char} (plain : ∀ c ∈ w, isPlain c) (h : Breaks cs) :
    (w ++ cs).takeWhile isPlain = w := by
  rw [List.takeWhile_append_of_pos plain]
  cases cs with
  | nil => simp
  | cons c cs => simp [h c rfl]

theorem plain_inj {w w' cs cs' : List Char} (plain : ∀ c ∈ w, isPlain c)
    (plain' : ∀ c ∈ w', isPlain c) (h : Breaks cs) (h' : Breaks cs')
    (same : w ++ cs = w' ++ cs') : w = w' ∧ cs = cs' := by
  have word : w = w' := by
    rw [← takeWhile_plain plain h, same, takeWhile_plain plain' h']
  rw [word] at same
  exact ⟨word, List.append_cancel_left same⟩

/-! ## Reading a shape -/

namespace Shape

/-- What may not start a shape. -/
theorem Proper.not_ends {a : Shape} (h : a.Proper) (cs : List Char) :
    ¬Ends (a.listing.toList ++ cs) := by
  obtain ⟨c, rest, text, plain⟩ := h.head
  intro ends
  rw [text] at ends
  rcases ends c rfl with rfl | rfl <;> rcases plain with plain | same
  all_goals first | cases plain | cases same

mutual

/-- A text starts with one shape at most. -/
theorem listing_append_inj (a b : Shape) (ha : a.Proper) (hb : b.Proper) {cs ds : List Char}
    (hcs : Ends cs) (hds : Ends ds) (same : a.listing.toList ++ cs = b.listing.toList ++ ds) :
    a = b ∧ cs = ds := by
  cases a with
  | word text =>
    cases b with
    | word text' =>
      obtain ⟨word, rest⟩ := plain_inj ha.2 hb.2 hcs.breaks hds.breaks same
      rw [String.toList_inj.1 word]
      exact ⟨rfl, rest⟩
    | form label parts =>
      rw [form_append] at same
      obtain ⟨-, rest⟩ := plain_inj ha.2 hb.1 hcs.breaks (breaks_open _) same
      rw [rest] at hcs
      exact absurd hcs Ends.not_open
  | form label parts =>
    rw [form_append] at same
    cases b with
    | word text =>
      obtain ⟨-, rest⟩ := plain_inj ha.1 hb.2 (breaks_open _) hds.breaks same
      rw [← rest] at hds
      exact absurd hds Ends.not_open
    | form label' parts' =>
      rw [form_append] at same
      obtain ⟨named, rest⟩ := plain_inj ha.1 hb.1 (breaks_open _) (breaks_open _) same
      obtain ⟨rfl, after⟩ := inner_append_inj parts parts' ha.2 hb.2 (List.cons.inj rest).2
      rw [String.toList_inj.1 named]
      exact ⟨rfl, after⟩

theorem inner_append_inj (ps qs : List Shape) (hps : AllProper ps) (hqs : AllProper qs)
    {cs ds : List Char} (same : inner ps ++ ')' :: cs = inner qs ++ ')' :: ds) :
    ps = qs ∧ cs = ds := by
  cases ps with
  | nil =>
    cases qs with
    | nil => exact ⟨rfl, (List.cons.inj same).2⟩
    | cons q qs =>
      have ends : Ends (inner (q :: qs) ++ ')' :: ds) := same ▸ Ends.closed cs
      rw [inner, List.append_assoc] at ends
      exact absurd ends (hqs.1.not_ends _)
  | cons p ps =>
    cases qs with
    | nil =>
      have ends : Ends (inner (p :: ps) ++ ')' :: cs) := same ▸ Ends.closed ds
      rw [inner, List.append_assoc] at ends
      exact absurd ends (hps.1.not_ends _)
    | cons q qs =>
      rw [inner, inner, List.append_assoc, List.append_assoc] at same
      obtain ⟨rfl, rest⟩ :=
        listing_append_inj p q hps.1 hqs.1 (.later ps cs) (.later qs ds) same
      obtain ⟨rfl, after⟩ := later_append_inj ps qs hps.2 hqs.2 rest
      exact ⟨rfl, after⟩

theorem later_append_inj (ps qs : List Shape) (hps : AllProper ps) (hqs : AllProper qs)
    {cs ds : List Char} (same : later ps ++ ')' :: cs = later qs ++ ')' :: ds) :
    ps = qs ∧ cs = ds := by
  cases ps with
  | nil =>
    cases qs with
    | nil => exact ⟨rfl, (List.cons.inj same).2⟩
    | cons q qs => cases same
  | cons p ps =>
    cases qs with
    | nil => cases same
    | cons q qs =>
      have next : p.listing.toList ++ (later ps ++ ')' :: cs) =
          q.listing.toList ++ (later qs ++ ')' :: ds) := by
        simpa [later] using same
      obtain ⟨rfl, rest⟩ :=
        listing_append_inj p q hps.1 hqs.1 (.later ps cs) (.later qs ds) next
      obtain ⟨rfl, after⟩ := later_append_inj ps qs hps.2 hqs.2 rest
      exact ⟨rfl, after⟩

end

/-- Shapes with the same listing are the same. -/
theorem Proper.eq_of_listing {a b : Shape} (ha : a.Proper) (hb : b.Proper)
    (same : a.listing = b.listing) : a = b := by
  have text : a.listing.toList ++ [] = b.listing.toList ++ [] := by rw [same]
  exact (listing_append_inj a b ha hb .nil .nil text).1

theorem AllProper.eq_of_listings {ps qs : List Shape} (hps : AllProper ps) (hqs : AllProper qs)
    (same : listings ps = listings qs) : ps = qs := by
  induction ps generalizing qs with
  | nil =>
    cases qs with
    | nil => rfl
    | cons q qs => cases same
  | cons p ps ih =>
    cases qs with
    | nil => cases same
    | cons q qs =>
      obtain ⟨first, others⟩ := List.cons.inj same
      rw [hps.1.eq_of_listing hqs.1 first, ih hps.2 hqs.2 others]

end Shape

end ClassScript
