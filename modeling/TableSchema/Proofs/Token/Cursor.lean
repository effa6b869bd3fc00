import TableSchema.Proofs.Outcome
import TableSchema.Proofs.Token.Progress

/-!
Reading a line by its indices.

A cursor is a scanner that keeps its line twice, as a text and as characters, and gets at the
characters by their indices only. Every access is checked: an index that is not on the line, or a
slice that begins behind its end or ends behind the line, is a result of its own (`Misaccess`). No
call ever comes to such an access, and each one gives what the scanner gives
(`Cursor.next_ofScanner`), because the cursor stays on its line. This holds for any bytes and any
number of calls, also behind flaws, behind lines that are no text, and at the end of the input
(`Cursor.calls_ofBytes`).
-/

namespace TableSchema

open Text (SourceLine)

/-- An access to the characters of a line that is out of bounds. -/
inductive Misaccess where
  | index (i : Nat)
  | slice (start stop : Nat)
deriving DecidableEq, Repr

/-! ## Checked accesses -/

namespace Indexed

/-- The character at an index. -/
def char (chars : List Char) (i : Nat) : Except Misaccess Char :=
  match chars[i]? with
  | some c => .ok c
  | none => .error (.index i)

/-- The characters from an index up to another one. -/
def slice (chars : List Char) (start stop : Nat) : Except Misaccess (List Char) :=
  if start ≤ stop ∧ stop ≤ chars.length then .ok ((chars.drop start).take (stop - start))
  else .error (.slice start stop)

/-- The first index from `i` on at which no gap stands. -/
def skipGap (chars : List Char) (i : Nat) : Except Misaccess Nat :=
  if i < chars.length then do
    let c ← char chars i
    if Lexeme.isGap c then skipGap chars (i + 1) else return i
  else return i
termination_by chars.length - i

/-- Whether a mark that closes a comment begins at an index. -/
def closesAt (chars : List Char) (i : Nat) : Except Misaccess Bool := do
  let star ← char chars i
  if star = '*' then
    let slash ← char chars (i + 1)
    return slash == '/'
  else return false

/-- The first index from `i` on at which a mark begins that closes a comment. -/
def findClose (chars : List Char) (i : Nat) : Except Misaccess (Option Nat) :=
  if i < chars.length - 1 then do
    if ← closesAt chars i then return some i else findClose chars (i + 1)
  else return none
termination_by chars.length - i

end Indexed

/-- A scanner that keeps the text and the characters of its line. -/
structure Cursor where
  ahead : List SourceLine
  line : String
  chars : List Char
  row : Nat
  pos : Nat
  spent : Bool
deriving DecidableEq, Repr

namespace Cursor

/-- The cursor at the start of a line, which it has just fetched. -/
def enter (c : Cursor) (cs : List Char) (ahead : List SourceLine) : Cursor :=
  let text := String.ofList cs
  ⟨ahead, text, text.toList, c.row + 1, 0, false⟩

/-- A token that begins at a column of the present line, after which the cursor goes on at `pos`. -/
def token (c : Cursor) (kind : Token.Kind) (text : String) (col pos : Nat) : Reply × Cursor :=
  (.token ⟨kind, text, c.row, col⟩, { c with pos := pos })

/-- A flaw at a column of the present line, after which the cursor goes on at `pos`. -/
def flaw (c : Cursor) (flaw : Flaw) (col pos : Nat) : Reply × Cursor :=
  c.token .flaw flaw.message col pos

/-- Goes on with a comment that began at `start` on the line of `opening`. At the end of the input
the line of the comment is put back. -/
def closeComment (opening : Cursor) (start : Nat) (text : List Char) (c : Cursor) :
    List SourceLine → Except Misaccess (Reply × Cursor)
  | [] =>
    .ok (.token ⟨.flaw, Flaw.openComment.message, opening.row, start⟩,
      { opening with ahead := [], pos := opening.chars.length, spent := true })
  | .unreadable :: ahead => .ok (.unreadable, { c with ahead := ahead })
  | .readable cs :: ahead => do
    let c := c.enter cs ahead
    match ← Indexed.findClose c.chars 0 with
    | some stop =>
      let part ← Indexed.slice c.chars 0 (stop + 2)
      return (.token ⟨.comment, String.ofList (text ++ '\n' :: part), opening.row, start⟩,
        { c with pos := stop + 2 })
    | none => closeComment opening start (text ++ '\n' :: c.line.toList) c ahead

/-- Reads a comment that begins at the position with the mark for several lines. -/
def readBlock (c : Cursor) : Except Misaccess (Reply × Cursor) := do
  match ← Indexed.findClose c.chars (c.pos + 2) with
  | some stop =>
    let text ← Indexed.slice c.chars c.pos (stop + 2)
    return c.token .comment (String.ofList text) c.pos (stop + 2)
  | none =>
    let text ← Indexed.slice c.chars c.pos c.chars.length
    closeComment c c.pos text c c.ahead

/-- Reads what begins with a slash at the position. -/
def readSlash (c : Cursor) : Except Misaccess (Reply × Cursor) :=
  match c.chars[c.pos + 1]? with
  | some '/' => do
    let text ← Indexed.slice c.chars c.pos c.chars.length
    return c.token .comment (String.ofList text) c.pos c.chars.length
  | some '*' => c.readBlock
  | _ => .ok (c.flaw .looseSlash c.pos (c.pos + 1))

/-- Reads what begins with an opening bracket at the position. -/
def readBracket (c : Cursor) : Except Misaccess (Reply × Cursor) := do
  let rest ← Indexed.slice c.chars c.pos c.chars.length
  match rest.findIdx? (· == ']') with
  | none => return c.flaw .openBracket c.pos (c.pos + 1)
  | some offset =>
    let stop := c.pos + offset
    let text ← Indexed.slice c.chars c.pos (stop + 1)
    let inner ← Indexed.slice c.chars (c.pos + 1) stop
    match Section.ofName? (String.ofList inner) with
    | some _ => return c.token .header (String.ofList text) c.pos (stop + 1)
    | none => return c.flaw .unknownSection c.pos (stop + 1)

/-- Reads the special character at the position. -/
def readSpecial (c : Cursor) (special : Char) : Except Misaccess (Reply × Cursor) :=
  let single := c.token .special (String.ofList [special]) c.pos (c.pos + 1)
  if special = '(' then do
    let rest ← Indexed.slice c.chars (c.pos + 1) c.chars.length
    return if rest.contains ')' then single else c.flaw .openParen c.pos (c.pos + 1)
  else .ok single

/-- Goes on with a word that began at the position and has come to the index `i`. -/
def readWord (c : Cursor) (i : Nat) : Except Misaccess (Reply × Cursor) :=
  if i < c.chars.length then do
    let d ← Indexed.char c.chars i
    if Lexeme.endsWord d then
      let text ← Indexed.slice c.chars c.pos i
      return c.token .word (String.ofList text) c.pos i
    else if Lexeme.isWordChar d then readWord c (i + 1)
    else return c.flaw (if i = c.pos then .floating d else .insideWord d) i (i + 1)
  else do
    let text ← Indexed.slice c.chars c.pos i
    return c.token .word (String.ofList text) c.pos i
termination_by c.chars.length - i

/-- Reads what begins with the character `d` at the position. -/
def read (c : Cursor) (d : Char) : Except Misaccess (Reply × Cursor) :=
  if d = '/' then c.readSlash
  else if d = '[' then c.readBracket
  else if Lexeme.isSpecial d then c.readSpecial d
  else c.readWord c.pos

/-- Reads on in the present line. -/
def step (c : Cursor) : Except Misaccess (Reply × Cursor) := do
  let pos ← Indexed.skipGap c.chars c.pos
  let c := { c with pos := pos }
  if pos < c.chars.length then
    let d ← Indexed.char c.chars pos
    c.read d
  else return (.token (.lineEnd c.row c.chars.length), { c with spent := true })

/-- The answer to a call for the next token, and the cursor after it. A line that is no text leaves
the present one in its place. -/
def next (c : Cursor) : Except Misaccess (Option Reply × Cursor) :=
  if c.spent then
    match c.ahead with
    | [] => .ok (none, c)
    | .unreadable :: ahead => .ok (some .unreadable, { c with ahead := ahead })
    | .readable cs :: ahead => do
      let (reply, c) ← (c.enter cs ahead).step
      return (some reply, c)
  else do
    let (reply, c) ← c.step
    return (some reply, c)

/-- The answers to so many calls, and the cursor after them. -/
def calls : Nat → Cursor → Except Misaccess (List (Option Reply) × Cursor)
  | 0, c => .ok ([], c)
  | n + 1, c => do
    let (answer, c) ← c.next
    let (answers, c) ← calls n c
    return (answer :: answers, c)

/-- The cursor of a sequence of bytes, in front of its first line. -/
def ofBytes (bytes : List UInt8) : Cursor := ⟨SourceLine.ofBytes bytes, "", [], 0, 0, true⟩

/-- The cursor that stands where a scanner stands. -/
def ofScanner (s : Scanner) : Cursor :=
  ⟨s.ahead, String.ofList s.line, s.line, s.row, s.pos, s.spent⟩

end Cursor

/-! ## Accesses in bounds -/

namespace Indexed

variable {front mid back chars : List Char} {i start stop : Nat}

theorem char_eq_ok {c : Char} (split : chars = front ++ c :: back) (here : i = front.length) :
    char chars i = .ok c := by
  rw [char, split, here, List.getElem?_append_right (Nat.le_refl _), Nat.sub_self,
    List.getElem?_cons_zero]

theorem slice_eq_ok (split : chars = front ++ mid ++ back) (first : start = front.length)
    (last : stop = front.length + mid.length) : slice chars start stop = .ok mid := by
  have bounds : start ≤ stop ∧ stop ≤ chars.length := by
    rw [split, first, last, List.length_append, List.length_append]
    omega
  rw [slice, if_pos bounds, split, first, last, List.append_assoc, List.drop_left,
    Nat.add_sub_cancel_left, List.take_left]

/-- A slice that goes up to the end. -/
theorem slice_length_eq_ok (split : chars = front ++ mid) (first : start = front.length) :
    slice chars start chars.length = .ok mid := by
  have whole : chars = front ++ mid ++ [] := by rw [split, List.append_nil]
  exact slice_eq_ok whole first (by rw [split, List.length_append])

theorem skipGap_append (front back : List Char) : skipGap (front ++ back) front.length =
    .ok (front.length + (back.takeWhile Lexeme.isGap).length) := by
  induction back generalizing front with
  | nil => rw [skipGap, if_neg (by simp)]; rfl
  | cons c back ih =>
    have inside : front.length < (front ++ c :: back).length := by simp
    rw [skipGap, if_pos inside, char_eq_ok rfl rfl, Except.ok_bind]
    cases gap : Lexeme.isGap c with
    | false => rw [List.takeWhile_cons_of_neg (by simp [gap])]; rfl
    | true =>
      have rest := ih (front ++ [c])
      rw [List.append_assoc, List.singleton_append, List.length_append, List.length_singleton]
        at rest
      rw [if_pos rfl, rest, List.takeWhile_cons_of_pos gap, List.length_cons]
      congr 1
      omega

theorem closesAt_append {c d : Char} (front back : List Char) :
    closesAt (front ++ c :: d :: back) front.length = .ok (c == '*' && d == '/') := by
  rw [closesAt, char_eq_ok rfl rfl, Except.ok_bind]
  by_cases star : c = '*'
  · have next : front ++ c :: d :: back = (front ++ [c]) ++ d :: back := by simp
    rw [if_pos star, char_eq_ok next (by simp), star]
    rfl
  · rw [if_neg star, beq_false_of_ne star]
    rfl

theorem closing?_cons_cons (c d : Char) (back : List Char) :
    Lexeme.closing? (c :: d :: back) =
      if c == '*' && d == '/' then some 2 else (Lexeme.closing? (d :: back)).map (· + 1) := by
  split
  · rename_i mark
    simp only [Bool.and_eq_true, beq_iff_eq] at mark
    obtain ⟨rfl, rfl⟩ := mark
    rfl
  · rename_i noMark
    refine Lexeme.closing?.eq_3 _ _ fun more star slash => noMark ?_
    rw [star, (List.cons.inj slash).1]
    rfl

/-- The mark that closes a comment begins two characters before it ends. -/
theorem findClose_append (front back : List Char) : findClose (front ++ back) front.length =
    .ok ((Lexeme.closing? back).map fun size => front.length + size - 2) := by
  induction back generalizing front with
  | nil => rw [findClose, if_neg (by simp)]; rfl
  | cons c back ih =>
    cases back with
    | nil =>
      have none : Lexeme.closing? [c] = none := Lexeme.closing?.eq_3 _ _ fun _ _ slash => by
        cases slash
      rw [findClose, if_neg (by simp), none]
      rfl
    | cons d back =>
      have inside : front.length < (front ++ c :: d :: back).length - 1 := by simp
      have rest := ih (front ++ [c])
      rw [List.append_assoc, List.singleton_append, List.length_append, List.length_singleton]
        at rest
      rw [findClose, if_pos inside, closesAt_append, Except.ok_bind, closing?_cons_cons]
      cases c == '*' && d == '/' with
      | true => rfl
      | false =>
        rw [if_neg Bool.false_ne_true, if_neg Bool.false_ne_true, rest, Option.map_map]
        congr 2
        funext size
        show front.length + 1 + size - 2 = front.length + (size + 1) - 2
        omega

end Indexed

/-! ## Calls in bounds -/

namespace Cursor

variable {c : Cursor} {front rest : List Char} {s opening : Scanner} {start : Nat}

/-- The reply that a lexeme at the position is, and the cursor behind it. -/
def give (c : Cursor) (lexeme : Lexeme) : Reply × Cursor :=
  c.token lexeme.kind lexeme.text (c.pos + lexeme.offset) (c.pos + lexeme.size)

theorem readBracket_eq (split : c.chars = front ++ '[' :: rest) (here : c.pos = front.length) :
    c.readBracket = .ok (c.give (Lexeme.readBracket rest)) := by
  have tail : Indexed.slice c.chars c.pos c.chars.length = .ok ('[' :: rest) :=
    Indexed.slice_length_eq_ok split here
  rw [readBracket, tail, Except.ok_bind]
  by_cases closed : ']' ∈ rest
  · obtain ⟨inner, more, rfl, outside⟩ := List.eq_append_cons_of_mem closed
    have found : ('[' :: (inner ++ ']' :: more)).findIdx? (· == ']') = some (inner.length + 1) := by
      have none : inner.findIdx? (· == ']') = none :=
        List.findIdx?_eq_none_iff.mpr fun d hd => by simpa using ne_of_mem_of_not_mem hd outside
      simp [List.findIdx?_cons, List.findIdx?_append, none]
    have around : c.chars = front ++ ('[' :: inner ++ [']']) ++ more := by simp [split]
    have between : c.chars = (front ++ ['[']) ++ inner ++ ']' :: more := by simp [split]
    have whole : Indexed.slice c.chars c.pos (c.pos + (inner.length + 1) + 1) =
        .ok ('[' :: inner ++ [']']) :=
      Indexed.slice_eq_ok around here (by simp [here]; omega)
    have inside : Indexed.slice c.chars (c.pos + 1) (c.pos + (inner.length + 1)) = .ok inner :=
      Indexed.slice_eq_ok between (by simp [here]) (by simp [here]; omega)
    rw [found, Lexeme.readBracket_append outside]
    dsimp only
    rw [whole, Except.ok_bind, inside, Except.ok_bind]
    cases Section.ofName? (String.ofList inner) with
    | none => rfl
    | some part => simp [give, token, Lexeme.whole, Nat.add_assoc]
  · have none : ('[' :: rest).findIdx? (· == ']') = none :=
      List.findIdx?_eq_none_iff.mpr fun d hd => by
        rcases List.mem_cons.mp hd with rfl | hd
        · rfl
        · simpa using ne_of_mem_of_not_mem hd closed
    rw [none, Lexeme.readBracket_of_not_mem closed]
    rfl

theorem readSpecial_eq {special : Char} (split : c.chars = front ++ special :: rest)
    (here : c.pos = front.length) :
    c.readSpecial special = .ok (c.give (Lexeme.readSpecial special rest)) := by
  have behind : c.chars = (front ++ [special]) ++ rest := by simp [split]
  have tail : Indexed.slice c.chars (c.pos + 1) c.chars.length = .ok rest :=
    Indexed.slice_length_eq_ok behind (by simp [here])
  rw [readSpecial, Lexeme.readSpecial]
  by_cases opens : special = '('
  · rw [if_pos opens, tail, opens, Except.ok_bind]
    cases rest.contains ')' <;> rfl
  · rw [if_neg opens, beq_false_of_ne opens]
    rfl

/-- So far the word has come over the characters `word`. -/
theorem readWord_eq {word : List Char} (split : c.chars = front ++ word ++ rest)
    (here : c.pos = front.length) (inside : ∀ d ∈ word, Lexeme.isWordChar d = true) :
    c.readWord (c.pos + word.length) = .ok (c.give (Lexeme.readWord (word ++ rest))) := by
  have text : Indexed.slice c.chars c.pos (c.pos + word.length) = .ok word :=
    Indexed.slice_eq_ok split here (by rw [here])
  induction rest generalizing word with
  | nil =>
    have atEnd : ¬c.pos + word.length < c.chars.length := by
      rw [split, here]
      simp
    rw [readWord, if_neg atEnd, text, Lexeme.readWord_append inside (by simp)]
    rfl
  | cons d rest ih =>
    have onLine : c.pos + word.length < c.chars.length := by
      rw [split, here]
      simp
    have this : Indexed.char c.chars (c.pos + word.length) = .ok d :=
      Indexed.char_eq_ok split (by simp [here])
    rw [readWord, if_pos onLine, this, Except.ok_bind]
    cases ends : Lexeme.endsWord d with
    | true =>
      rw [if_pos rfl, text, Lexeme.readWord_append inside (by simp [ends])]
      rfl
    | false =>
      rw [if_neg Bool.false_ne_true]
      cases goesOn : Lexeme.isWordChar d with
      | true =>
        have longer : c.chars = front ++ (word ++ [d]) ++ rest := by simp [split]
        have later := ih longer
          (List.forall_mem_append.mpr ⟨inside, List.forall_mem_singleton.mpr goesOn⟩)
          (Indexed.slice_eq_ok longer here (by rw [here]))
        rw [if_pos rfl]
        simpa [Nat.add_assoc] using later
      | false =>
        have name : (word ++ d :: rest).takeWhile Lexeme.isWordChar = word := by
          rw [List.takeWhile_append_of_pos inside, List.takeWhile_cons_of_neg (by simp [goesOn]),
            List.append_nil]
        rw [if_neg Bool.false_ne_true, Lexeme.readWord, name, List.drop_left]
        simp only [ends]
        cases word with
        | nil => simp [give, flaw, token, Lexeme.flawed]
        | cons e word => simp [give, flaw, token, Lexeme.flawed, Nat.add_assoc]

theorem enter_ofScanner (cs : List Char) (ahead : List SourceLine) :
    (ofScanner s).enter cs ahead = ofScanner (s.enter cs ahead) := by
  simp only [enter, ofScanner, Scanner.enter, String.toList_ofList]

/-- Going on with a comment over the lines ahead. -/
theorem closeComment_ofScanner (text : List Char) (ahead : List SourceLine) :
    (ofScanner opening).closeComment start text (ofScanner s) ahead =
      .ok ((opening.closeComment start text s ahead).map id ofScanner) := by
  induction ahead generalizing s text with
  | nil => rfl
  | cons next ahead ih =>
    cases next with
    | unreadable => rfl
    | readable cs =>
      have close : Indexed.findClose cs 0 =
          .ok ((Lexeme.closing? cs).map fun size => 0 + size - 2) := Indexed.findClose_append [] cs
      have chars : (ofScanner (s.enter cs ahead)).chars = cs := rfl
      have line : (ofScanner (s.enter cs ahead)).line.toList = cs := String.toList_ofList
      rw [closeComment, Scanner.closeComment, enter_ofScanner, chars, close, Except.ok_bind]
      cases closing : Lexeme.closing? cs with
      | none =>
        have rest := ih (s := s.enter cs ahead) (text ++ '\n' :: cs)
        rw [Option.map_none]
        dsimp only
        rw [line, rest]
      | some size =>
        obtain ⟨lower, upper⟩ := Lexeme.closing?_bounds closing
        have stop : 0 + size - 2 + 2 = size := by omega
        have cut : cs = [] ++ cs.take size ++ cs.drop size := (List.take_append_drop size cs).symm
        have part : Indexed.slice cs 0 size = .ok (cs.take size) :=
          Indexed.slice_eq_ok cut rfl (by simp [upper])
        rw [Option.map_some]
        dsimp only
        rw [stop, part]
        rfl

/-- A block comment is a lexeme if it is closed on its line, and goes on over the lines ahead if
not. -/
theorem readBlock_ofScanner (split : s.line = front ++ '/' :: '*' :: rest)
    (here : s.pos = front.length) : (ofScanner s).readBlock = .ok
      (match Lexeme.readSlash ('*' :: rest) with
      | some lexeme => (ofScanner s).give lexeme
      | none => (s.closeComment s.pos ('/' :: '*' :: rest) s s.ahead).map id ofScanner) := by
  have close : Indexed.findClose s.line (s.pos + 2) =
      .ok ((Lexeme.closing? rest).map fun size => s.pos + 2 + size - 2) := by
    have whole : s.line = front ++ ['/', '*'] ++ rest := by simp [split]
    have body := Indexed.findClose_append (front ++ ['/', '*']) rest
    rwa [← whole, List.length_append, ← here] at body
  rw [readBlock]
  dsimp only [ofScanner]
  rw [close, Except.ok_bind, Lexeme.readSlash]
  cases closing : Lexeme.closing? rest with
  | none =>
    have tail : Indexed.slice s.line s.pos s.line.length = .ok ('/' :: '*' :: rest) :=
      Indexed.slice_length_eq_ok split here
    rw [Option.map_none]
    dsimp only
    rw [tail]
    exact closeComment_ofScanner _ _
  | some size =>
    obtain ⟨lower, upper⟩ := Lexeme.closing?_bounds closing
    have stop : s.pos + 2 + size - 2 + 2 = s.pos + (size + 2) := by omega
    have cut : s.line = front ++ ('/' :: '*' :: rest.take size) ++ rest.drop size := by
      simp [split]
    have text : Indexed.slice s.line s.pos (s.pos + (size + 2)) =
        .ok ('/' :: '*' :: rest.take size) :=
      Indexed.slice_eq_ok cut here (by simp [here, upper])
    rw [Option.map_some]
    dsimp only
    rw [stop, text]
    simp [give, token, Lexeme.whole, upper]

/-- What begins with a slash. -/
theorem readSlash_ofScanner (split : s.line = front ++ '/' :: rest) (here : s.pos = front.length) :
    (ofScanner s).readSlash = .ok (match Lexeme.readSlash rest with
      | some lexeme => (ofScanner s).give lexeme
      | none => (s.closeComment s.pos ('/' :: rest) s s.ahead).map id ofScanner) := by
  have second : s.line[s.pos + 1]? = rest.head? := by
    rw [split, here, List.getElem?_append_right (by omega), Nat.add_sub_cancel_left,
      List.getElem?_cons_succ, List.head?_eq_getElem?]
  have shown : (ofScanner s).chars[(ofScanner s).pos + 1]? = rest.head? := second
  rw [readSlash, shown]
  split
  · rename_i slash
    obtain ⟨body, rfl⟩ := List.head?_eq_some_iff.mp slash
    have text : Indexed.slice s.line s.pos s.line.length = .ok ('/' :: '/' :: body) :=
      Indexed.slice_length_eq_ok split here
    rw [Lexeme.readSlash]
    dsimp only [ofScanner]
    rw [text]
    simp [give, token, Lexeme.whole, split, here]
  · rename_i star
    obtain ⟨body, rfl⟩ := List.head?_eq_some_iff.mp star
    exact readBlock_ofScanner split here
  · rename_i noSlash noStar
    rw [Lexeme.readSlash.eq_3 rest (fun _ slash => noSlash (by rw [slash]; rfl))
      (fun _ star => noStar (by rw [star]; rfl))]
    rfl

/-- What stands at the position is read as the scanner reads it. -/
theorem read_ofScanner {d : Char} (split : s.line = front ++ d :: rest)
    (here : s.pos = front.length) :
    (ofScanner s).read d = .ok (match Lexeme.read d rest with
      | some lexeme => (ofScanner s).give lexeme
      | none => (s.closeComment s.pos (d :: rest) s s.ahead).map id ofScanner) := by
  rw [read, Lexeme.read]
  by_cases slash : d = '/'
  · subst slash
    exact readSlash_ofScanner split here
  by_cases bracket : d = '['
  · subst bracket
    exact readBracket_eq split here
  rw [if_neg slash, if_neg bracket, beq_false_of_ne slash, beq_false_of_ne bracket,
    if_neg Bool.false_ne_true, if_neg Bool.false_ne_true]
  cases Lexeme.isSpecial d with
  | true => exact readSpecial_eq split here
  | false =>
    have cut : (ofScanner s).chars = front ++ [] ++ d :: rest := by simpa [ofScanner] using split
    exact readWord_eq cut here (by simp)

theorem step_ofScanner (inLine : s.InLine) :
    (ofScanner s).step = .ok (s.step.map id ofScanner) := by
  -- the line is cut at the position, and then behind the gap
  have atPos := (List.take_append_drop s.pos s.line).symm
  have width : (s.line.take s.pos).length = s.pos := List.length_take_of_le inLine
  have behindGap := List.takeWhile_append_dropWhile (p := Lexeme.isGap) (l := s.line.drop s.pos)
  have skip := Indexed.skipGap_append (s.line.take s.pos) (s.line.drop s.pos)
  rw [← atPos, width] at skip
  rw [← behindGap, ← List.append_assoc] at atPos
  have start : (s.line.take s.pos ++ (s.line.drop s.pos).takeWhile Lexeme.isGap).length =
      s.pos + ((s.line.drop s.pos).takeWhile Lexeme.isGap).length := by
    rw [List.length_append, width]
  rw [step, Scanner.step]
  dsimp only [ofScanner]
  rw [skip, Except.ok_bind, ← start]
  generalize s.line.take s.pos ++ (s.line.drop s.pos).takeWhile Lexeme.isGap = before at atPos
  cases found : (s.line.drop s.pos).dropWhile Lexeme.isGap with
  | nil =>
    rw [found, List.append_nil] at atPos
    rw [if_neg (by rw [← atPos]; exact Nat.lt_irrefl _)]
    rfl
  | cons d rest =>
    rw [found] at atPos
    have onLine : before.length < s.line.length := by
      rw [atPos]
      simp
    rw [if_pos onLine, Indexed.char_eq_ok atPos rfl, Except.ok_bind]
    have reads := read_ofScanner (s := { s with pos := before.length }) atPos rfl
    refine Eq.trans reads ?_
    dsimp only
    cases Lexeme.read d rest <;> rfl

/-- A call of a cursor on its line is in bounds, and gives what the scanner gives. -/
theorem next_ofScanner (inLine : s.InLine) :
    (ofScanner s).next = .ok (s.call.map id ofScanner) := by
  have present (s : Scanner) (inLine : s.InLine) : (do
      let (reply, c) ← (ofScanner s).step
      return (some reply, c)) = (.ok (s.step.map some ofScanner) : Except Misaccess _) := by
    rw [step_ofScanner inLine]
    rfl
  have spent : (ofScanner s).spent = s.spent := rfl
  have ahead : (ofScanner s).ahead = s.ahead := rfl
  rw [next, Scanner.call, Scanner.next, spent, ahead]
  cases s.spent with
  | false => exact present s inLine
  | true =>
    cases s.ahead with
    | nil => rfl
    | cons line ahead =>
      cases line with
      | unreadable => rfl
      | readable cs =>
        rw [if_pos rfl]
        dsimp only
        rw [enter_ofScanner]
        exact present _ (Nat.zero_le _)

theorem calls_ofScanner (inLine : s.InLine) (n : Nat) :
    (ofScanner s).calls n =
      .ok ((List.range n).map s.answer, ofScanner (s.afterCalls n)) ∧ (s.afterCalls n).InLine := by
  induction n generalizing s with
  | zero => exact ⟨rfl, inLine⟩
  | succ n ih =>
    have stays : s.call.2.InLine := by
      rw [Scanner.call]
      cases found : s.next with
      | none => exact inLine
      | some result =>
        obtain ⟨reply, after⟩ := result
        exact (Scanner.forward_of_next inLine found).inLine
    obtain ⟨later, inLine'⟩ := ih stays
    refine ⟨?_, inLine'⟩
    rw [calls, next_ofScanner inLine, Except.ok_bind]
    dsimp only [Prod.map]
    rw [later, List.range_succ_eq_map, List.map_cons, List.map_map]
    rfl

/-- No call of a cursor makes an access that is out of bounds: any number of calls on any bytes
gives the answers of the scanner. The cursor stays on its line, of which it has the characters. -/
theorem calls_ofBytes (bytes : List UInt8) (n : Nat) :
    ∃ c, (ofBytes bytes).calls n = .ok ((List.range n).map (Scanner.ofBytes bytes).answer, c) ∧
      c = ofScanner ((Scanner.ofBytes bytes).afterCalls n) ∧
      c.pos ≤ c.chars.length ∧ c.chars = c.line.toList := by
  obtain ⟨calls, inLine⟩ := calls_ofScanner (s := .ofBytes bytes) (Nat.zero_le _) n
  exact ⟨_, calls, rfl, inLine, String.toList_ofList.symm⟩

end Cursor

end TableSchema
