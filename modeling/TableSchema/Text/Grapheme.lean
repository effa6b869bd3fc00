import TableSchema.Text.CaseMap
import TableSchema.Text.GraphemeTables

/-!
The clusters of a text: what a reader takes for one character.

A letter and the accents after it are one cluster, and so are the parts of a syllable, the two
letters of a flag, and pictographs held together by joiners. Whether a character goes on with the
cluster before it hangs on its kind and on a short memory of the text before it, the `Trail`.

Nothing is lost when a text is cut (`flatten_clusters`). The characters of ASCII stand alone, but
for the two that end a line together (`clusters_of_isAscii`).
-/

namespace TableSchema.Text

/-- The kinds of characters, by the way they join their neighbours. -/
inductive Joining where
  | alone
  | control
  | carriageReturn
  | lineFeed
  | extend
  | linker
  | nonJoiner
  | joiner
  | spacing
  | before
  | leading
  | vowel
  | trailing
  | openSyllable
  | closedSyllable
  | consonant
  | pictograph
  | regional
deriving DecidableEq, Repr

namespace Joining

/-- The ranges of the kinds that have no rule of their own. -/
def tables : List (Joining × List (Nat × Nat)) :=
  [(extend, extendRanges), (linker, linkerRanges), (spacing, spacingRanges),
    (before, prependRanges), (leading, leadingRanges), (vowel, vowelRanges),
    (trailing, trailingRanges), (consonant, consonantRanges), (pictograph, pictographRanges),
    (regional, regionalRanges), (control, controlRanges)]

/-- The kind of a character of ASCII. -/
def ofAscii (c : Char) : Joining :=
  if c == '\r' then carriageReturn
  else if c == '\n' then lineFeed
  else if c < ' ' || c == '\x7f' then control
  else alone

/-- The kind of a character. The syllables of Hangul are laid out in rows of 28, and the first of a
row has no consonant at its end. -/
def ofChar (c : Char) : Joining :=
  if isAscii c then ofAscii c
  else if c.toNat = 0x200C then nonJoiner
  else if c.toNat = 0x200D then joiner
  else if 0xAC00 ≤ c.toNat && c.toNat ≤ 0xD7A3 then
    if (c.toNat - 0xAC00) % 28 = 0 then openSyllable else closedSyllable
  else
    match tables.find? fun table => inRanges table.2 c.toNat with
    | some (kind, _) => kind
    | none => alone

/-- Whether characters of a kind join nothing. -/
def isControl (kind : Joining) : Bool :=
  kind == control || kind == carriageReturn || kind == lineFeed

/-- Whether characters of a kind are marks on the character before them. -/
def isMark (kind : Joining) : Bool :=
  kind == extend || kind == linker || kind == nonJoiner || kind == joiner

end Joining

/-- What is known of the text before a place: the kind of its last character, whether it ends with a
pictograph and its marks, whether with a consonant and its marks (and if so, whether a linker is
among them), and whether an odd number of regional letters ends it. -/
structure Trail where
  last : Joining
  pictograph : Bool
  conjunct : Option Bool
  odd : Bool
deriving DecidableEq, Repr

namespace Trail

/-- The start of a text. Nothing joins what is before it. -/
def start : Trail := ⟨.control, false, none, false⟩

/-- The trail after one more character. A joiner ends the marks of a pictograph. -/
def push (t : Trail) (kind : Joining) : Trail where
  last := kind
  pictograph :=
    kind == .pictograph || (kind.isMark && t.pictograph && t.last != .joiner)
  conjunct :=
    if kind == .consonant then some false
    else if kind == .linker then t.conjunct.map fun _ => true
    else if kind.isMark && kind != .nonJoiner then t.conjunct
    else none
  odd := kind == .regional && !t.odd

/-- Whether a character of some kind goes on with the cluster before it. The two characters that end
a line together do, and apart from them nothing joins a control. -/
def joins (t : Trail) (kind : Joining) : Bool :=
  if t.last == .carriageReturn && kind == .lineFeed then true
  else if t.last.isControl || kind.isControl then false
  else if kind.isMark || kind == .spacing || t.last == .before then true
  else
    match kind with
    | .leading => t.last == .leading
    | .openSyllable => t.last == .leading
    | .closedSyllable => t.last == .leading
    | .vowel => [.leading, .openSyllable, .vowel].contains t.last
    | .trailing => [.openSyllable, .vowel, .closedSyllable, .trailing].contains t.last
    | .consonant => t.conjunct == some true
    | .pictograph => t.last == .joiner && t.pictograph
    | .regional => t.odd
    | _ => false

end Trail

/-- The rest of the cluster that reaches into a text, and the clusters after it. -/
def clustersAfter (t : Trail) : List Char → List Char × List (List Char)
  | [] => ([], [])
  | c :: rest =>
    let kind := Joining.ofChar c
    let (more, others) := clustersAfter (t.push kind) rest
    if t.joins kind then (c :: more, others) else ([], (c :: more) :: others)

/-- The clusters of a text. -/
def clusters (cs : List Char) : List (List Char) := (clustersAfter .start cs).2

theorem flatten_clustersAfter (t : Trail) (cs : List Char) :
    (clustersAfter t cs).1 ++ (clustersAfter t cs).2.flatten = cs := by
  induction cs generalizing t with
  | nil => rfl
  | cons c rest ih =>
    simp only [clustersAfter]
    split <;> simp [ih]

theorem joins_start (kind : Joining) : Trail.start.joins kind = false := by
  cases kind <;> rfl

theorem clustersAfter_start_fst (cs : List Char) : (clustersAfter .start cs).1 = [] := by
  cases cs with
  | nil => rfl
  | cons c rest => simp [clustersAfter, joins_start]

/-- Clusters are the text, cut. -/
@[simp] theorem flatten_clusters (cs : List Char) : (clusters cs).flatten = cs := by
  have h := flatten_clustersAfter .start cs
  rwa [clustersAfter_start_fst, List.nil_append] at h

theorem ofAscii_cases (c : Char) : (Joining.ofAscii c = .alone ∨ Joining.ofAscii c = .control) ∨
    (c = '\r' ∨ c = '\n') := by
  unfold Joining.ofAscii
  split
  · simp_all
  · split
    · simp_all
    · split <;> simp

theorem joins_eq_false {t : Trail} {kind : Joining} (ht : t.last = .alone ∨ t.last = .control)
    (h : kind = .alone ∨ kind = .control) : t.joins kind = false := by
  rcases ht with ht | ht <;> rcases h with h | h <;> subst h <;>
    simp [Trail.joins, ht, Joining.isControl, Joining.isMark]

theorem clustersAfter_of_isAscii {t : Trail} {cs : List Char}
    (ht : t.last = .alone ∨ t.last = .control)
    (h : ∀ c ∈ cs, isAscii c = true ∧ c ≠ '\r' ∧ c ≠ '\n') :
    clustersAfter t cs = ([], cs.map fun c => [c]) := by
  induction cs generalizing t with
  | nil => rfl
  | cons c rest ih =>
    obtain ⟨ascii, notReturn, notFeed⟩ := h c List.mem_cons_self
    have kind : Joining.ofChar c = .alone ∨ Joining.ofChar c = .control := by
      rw [Joining.ofChar, if_pos ascii]
      rcases ofAscii_cases c with kind | ending
      · exact kind
      · rcases ending with ending | ending <;> contradiction
    have rest := ih (t := t.push (Joining.ofChar c)) kind fun d hd =>
      h d (List.mem_cons_of_mem _ hd)
    simp [clustersAfter, joins_eq_false ht kind, rest]

/-- Every character of ASCII is a cluster, but for those that end lines. -/
theorem clusters_of_isAscii {cs : List Char}
    (h : ∀ c ∈ cs, isAscii c = true ∧ c ≠ '\r' ∧ c ≠ '\n') :
    clusters cs = cs.map fun c => [c] := by
  simp [clusters, clustersAfter_of_isAscii (t := .start) (Or.inr rfl) h]

end TableSchema.Text
