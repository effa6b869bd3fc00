import TableSchema.Proofs.Definition.FieldForm
import TableSchema.Proofs.Definition.TokenByToken

/-!
What is left of a line.

A reader that has the whole line can be entered at each control point (`Control.readOn`). There it
takes the next token and reads on behind it (`Control.readOn_of_gives`), and so it makes of the line
what a reader makes that asks for one token after the other. A line that does not come to its end is
refused at once (`Control.readOn_of_stops`).
-/

namespace TableSchema.Definition

namespace Draft

/-- Reads the end of a settings line. -/
def readSettingEnd (d : Draft) (setting : Setting) (e : Entry) : Except Refusal (Reading Draft) :=
  (endSetting setting e).map fun doc => .fresh { d with docs := d.docs ++ doc.toList }

/-- Reads what may follow the name of a class. -/
def readClassRest (d : Draft) (domain : String) (e : Entry) : Except Refusal (Reading Draft) := do
  let named ← tableName domain e
  (d.withClass domain named.1).readSettingEnd .table named.2

/-- Reads the second class of a link line, and the end of the line. -/
def readLinkRest (d : Draft) (t : Table) (one : String) (e : Entry) :
    Except Refusal (Reading Draft) := do
  let two ← linkedName .second e
  (d.withLink t ⟨t.domain, one, two.1⟩).readSettingEnd .link two.2

/-- Takes in all tokens that are left on a line, and judges what the line declares at its end. -/
def takeAll {α : Type} (step : α → Seen → Except Refusal α)
    (judge : α → Seen → Except Refusal Draft) (a : α) (e : Entry) :
    Except Refusal (Reading Draft) := do
  let a ← e.tokens.foldlM step a
  let mark ← e.ending.newLine?
  (judge a mark).map .fresh

/-- Reads the parts of a field that are left on a line. -/
def readParts (d : Draft) (t : Table) (type : FieldType) (length : Length) :
    FieldParts → Entry → Except Refusal (Reading Draft) :=
  takeAll FieldParts.add fun parts mark => (endField t type length parts mark).map d.withTable

/-- Reads the parts of a field behind its length. -/
def readFieldRest (d : Draft) (t : Table) (type : FieldType) (length : Length × Entry) :
    Except Refusal (Reading Draft) := d.readParts t type length.1 .start length.2

/-- Reads the fields of an index that are left on a line. -/
def readIndexRest (d : Draft) (t : Table) (first : Seen) :
    Index → Entry → Except Refusal (Reading Draft) :=
  takeAll (addIndexed t) fun index mark => (endIndex t first index mark).map d.withTable

/-- Reads the foreign fields that are left on a line. -/
def readForeignRest (d : Draft) (t : Table) (fields : List String) :
    ForeignFields → Entry → Except Refusal (Reading Draft) :=
  takeAll ForeignFields.add fun foreign mark =>
    (endForeignKey t.domain fields foreign mark).map d.withForeignKey

/-- Reads a foreign key behind some of its local fields. -/
def readLocalRest (d : Draft) (t : Table) (fields : List String) (e : Entry) :
    Except Refusal (Reading Draft) := do
  let (others, keyword, rest) ← readLocalFields e.ending e.tokens
  if (fields ++ others).isEmpty then .error (keyword.reject .localFieldMissing)
  else d.readForeignRest t (fields ++ others) .start ⟨rest, e.ending⟩

end Draft

/-- What the readers of lines make of the rest of a line from a control point on. -/
def Control.readOn (registered : String → Option Table) (d : Draft) (e : Entry) :
    Control → Except Refusal (Reading Draft)
  | .className => do
    let named ← Definition.className e
    match registered named.1 with
    | some t => return .registered t
    | none => d.readClassRest named.1 named.2
  | .tableName domain => d.readClassRest domain e
  | .settingEnd setting => d.readSettingEnd setting e
  | .commentEnd setting => do
    let last ← e.next
    if last.1.token.kind = .newLine then return .fresh d
    else .error (last.1.reject (.afterSetting setting last.1.token))
  | .firstLinked t => do
    let one ← linkedName .first e
    d.readLinkRest t one.1 one.2
  | .secondLinked t one => d.readLinkRest t one e
  | .typeLength t type => readTypeLength type e >>= d.readFieldRest t type
  | .number t type withPrecision => readLength withPrecision e >>= d.readFieldRest t type
  | .comma t type size => do
    let more ← readPrecision e
    readClosing ⟨some size, more.1⟩ more.2 >>= d.readFieldRest t type
  | .precision t type size => do
    let more ← readNumber .precisionExpected e
    readClosing ⟨some size, some more.1⟩ more.2 >>= d.readFieldRest t type
  | .close t type length => readClosing length e >>= d.readFieldRest t type
  | .fieldPart t type length parts => d.readParts t type length parts e
  | .indexField t first index => d.readIndexRest t first index e
  | .localField t fields => d.readLocalRest t fields e
  | .foreignField t fields foreign => d.readForeignRest t fields foreign e

/-- What the readers of lines make of the rest of a line. -/
def Stage.readOn (registered : String → Option Table) (e : Entry) :
    Stage → Except Refusal (Reading Draft)
  | .between d => .ok (.fresh d)
  | .within d c => c.readOn registered d e
  | .registered t => .ok (.registered t)

/-- The next token of an entry, and what it leaves. At the end of a line it leaves the end. -/
inductive Entry.Gives : Entry → Seen → Entry → Prop
  | token {seen : Seen} {rest : List Seen} {ending : Ending} : seen.token.kind ≠ .newLine →
      Gives ⟨seen :: rest, ending⟩ seen ⟨rest, ending⟩
  | newLine {mark : Seen} {ending : Ending} : mark.token.kind = .newLine →
      ending.newLine? = .ok mark → Gives ⟨[], ending⟩ mark ⟨[], ending⟩

section

variable {registered : String → Option Table} {d : Draft} {e after : Entry} {seen : Seen}
  {t : Table} {type : FieldType}

theorem Entry.Gives.next_eq (h : e.Gives seen after) : e.next = .ok (seen, after) := by
  cases h with
  | token => rfl
  | newLine _ ends =>
    rw [Entry.next, ends]
    rfl

theorem readSettingEnd_of_gives (h : e.Gives seen after) (setting : Setting) :
    d.readSettingEnd setting e =
      (d.receiveSettingEnd setting seen >>= Stage.readOn registered after) := by
  rw [Draft.readSettingEnd, endSetting, h.next_eq, Except.ok_bind, Draft.receiveSettingEnd]
  dsimp only
  cases seen.token.isComment with
  | true =>
    rw [if_pos rfl, if_pos rfl, Except.ok_bind, Stage.readOn, Control.readOn]
    cases after.next with
    | error refusal => rfl
    | ok last =>
      rw [Except.ok_bind, Except.ok_bind]
      split <;> rfl
  | false =>
    rw [if_neg Bool.false_ne_true, if_neg Bool.false_ne_true]
    split
    · simp [Except.map, Stage.readOn]
    · rfl

theorem readClassRest_of_gives (h : e.Gives seen after) (domain : String) :
    d.readClassRest domain e =
      (Control.receive registered d seen (.tableName domain) >>=
        Stage.readOn registered after) := by
  rw [Draft.readClassRest, tableName, h.next_eq, Except.ok_bind, Control.receive]
  dsimp only
  cases seen.token.isWord with
  | true => rfl
  | false => exact readSettingEnd_of_gives h _

theorem readLinkRest_of_gives (h : e.Gives seen after) (one : String) :
    d.readLinkRest t one e =
      (Control.receive registered d seen (.secondLinked t one) >>=
        Stage.readOn registered after) := by
  rw [Draft.readLinkRest, linkedName, h.next_eq, Except.ok_bind, Control.receive]
  dsimp only
  cases seen.token.isWord <;> rfl

theorem takeAll_of_gives {α : Type} {step : α → Seen → Except Refusal α}
    {judge : α → Seen → Except Refusal Draft} {goOn : α → Control}
    (rest : ∀ a, (goOn a).readOn registered d after = Draft.takeAll step judge a after)
    (h : e.Gives seen after) (a : α) :
    Draft.takeAll step judge a e =
      (d.takeIn seen (judge a seen) (step a seen) goOn >>= Stage.readOn registered after) := by
  rw [Draft.takeAll, Draft.takeIn]
  cases h with
  | token inner =>
    rw [if_neg inner, List.foldlM_cons]
    cases step a seen with
    | error refusal => rfl
    | ok a => exact (rest a).symm
  | newLine newLine ends =>
    rw [if_pos newLine, ends, List.foldlM_nil, Except.pure_eq, Except.ok_bind, Except.ok_bind]
    cases judge a seen <;> rfl

theorem readParts_of_gives (h : e.Gives seen after) (length : Length) (parts : FieldParts) :
    d.readParts t type length parts e =
      (d.receivePart t type length parts seen >>= Stage.readOn registered after) :=
  takeAll_of_gives (fun _ => rfl) h parts

theorem readNumber_of_gives (h : e.Gives seen after) (problem : Problem) :
    readNumber problem e = (numberOf problem seen).map fun value => (value, after) := by
  rw [readNumber, h.next_eq, Except.ok_bind, numberOf]
  dsimp only
  split
  · split <;> rfl
  · rfl

theorem readClosing_of_gives (h : e.Gives seen after) (length : Length) :
    (readClosing length e >>= d.readFieldRest t type) =
      (d.receiveClose t type length seen >>= Stage.readOn registered after) := by
  rw [readClosing, h.next_eq, Except.ok_bind, Draft.receiveClose]
  dsimp only
  cases seen.token.isSpecial ')' <;> rfl

theorem readPrecision_of_gives (h : e.Gives seen after) (size : Nat) :
    Control.readOn registered d e (.comma t type size) =
      (Control.receive registered d seen (.comma t type size) >>=
        Stage.readOn registered after) := by
  rw [Control.readOn, readPrecision, h.next_eq, Except.ok_bind, Control.receive]
  dsimp only
  cases seen.token.isSpecial ',' with
  | true =>
    rw [if_pos rfl, if_pos rfl, Except.ok_bind, Stage.readOn, Control.readOn]
    cases readNumber .precisionExpected after <;> rfl
  | false => exact readClosing_of_gives h _

theorem readLocalRest_of_gives (h : e.Gives seen after) (fields : List String) :
    d.readLocalRest t fields e =
      (d.receiveLocalField t fields seen >>= Stage.readOn registered after) := by
  rw [Draft.readLocalRest, Draft.receiveLocalField]
  cases h with
  | @token seen rest ending inner =>
    rw [readLocalFields]
    cases seen.token.isKeyword constrainsTo with
    | true =>
      rw [if_pos rfl, if_pos rfl, Except.ok_bind]
      dsimp only
      rw [List.append_nil]
      cases fields.isEmpty <;> rfl
    | false =>
      rw [if_neg Bool.false_ne_true, if_neg Bool.false_ne_true, if_neg inner]
      cases seen.token.isWord with
      | false => rfl
      | true =>
        rw [if_pos rfl, if_pos rfl, Except.ok_bind, Stage.readOn, Control.readOn,
          Draft.readLocalRest]
        cases readLocalFields ending rest with
        | error refusal => rfl
        | ok others =>
          simp only [Except.ok_bind, Except.pure_eq, List.append_assoc, List.singleton_append]
  | newLine newLine ends =>
    have word : seen.token.isKeyword constrainsTo = false := by
      simp [Token.isKeyword, newLine]
    rw [readLocalFields, ends, word, if_neg Bool.false_ne_true, if_pos newLine]
    rfl

theorem readTypeLength_of_gives (h : e.Gives seen after) :
    Control.readOn registered d e (.typeLength t type) =
      (Control.receive registered d seen (.typeLength t type) >>=
        Stage.readOn registered after) := by
  have parts := @readParts_of_gives registered d e after seen t type h .absent .start
  rw [Control.readOn, readTypeLength, h.next_eq, Except.ok_bind, Control.receive]
  dsimp only
  cases type.lengthRule with
  | forbidden =>
    cases seen.token.isSpecial '(' with
    | true => rfl
    | false => exact parts
  | optional =>
    cases seen.token.isSpecial '(' with
    | true => rfl
    | false => exact parts
  | required => cases seen.token.isSpecial '(' <;> rfl
  | withPrecision => cases seen.token.isSpecial '(' <;> rfl

/-- Reading on from a control point takes the next token and reads on behind it. -/
theorem Control.readOn_of_gives (h : e.Gives seen after) (c : Control) :
    c.readOn registered d e =
      (c.receive registered d seen >>= Stage.readOn registered after) := by
  cases c with
  | className =>
    rw [Control.readOn, Definition.className, h.next_eq, Except.ok_bind, Control.receive]
    dsimp only
    cases seen.token.isWord with
    | false => rfl
    | true =>
      rw [if_pos rfl, if_pos rfl, Except.pure_eq, Except.ok_bind]
      cases registered (Identifier.titleCase seen.token.text) <;> rfl
  | tableName domain => exact readClassRest_of_gives h domain
  | settingEnd setting => exact readSettingEnd_of_gives h setting
  | commentEnd setting =>
    rw [Control.readOn, h.next_eq, Except.ok_bind, Control.receive]
    dsimp only
    split <;> rfl
  | firstLinked t =>
    rw [Control.readOn, linkedName, h.next_eq, Except.ok_bind, Control.receive]
    dsimp only
    cases seen.token.isWord <;> rfl
  | secondLinked t one => exact readLinkRest_of_gives h one
  | typeLength t type => exact readTypeLength_of_gives h
  | number t type withPrecision =>
    rw [Control.readOn, readLength_eq, readNumber_of_gives h, Control.receive]
    cases numberOf .lengthExpected seen with
    | error refusal => rfl
    | ok size =>
      cases withPrecision with
      | false => rfl
      | true =>
        simp only [Except.map, Except.bind, Except.ok_bind, if_true, Stage.readOn, Control.readOn]
        cases readPrecision after <;> rfl
  | comma t type size => exact readPrecision_of_gives h size
  | precision t type size =>
    rw [Control.readOn, readNumber_of_gives h, Control.receive]
    cases numberOf .precisionExpected seen <;> rfl
  | close t type length => exact readClosing_of_gives h length
  | fieldPart t type length parts => exact readParts_of_gives h length parts
  | indexField t first index => exact takeAll_of_gives (fun _ => rfl) h index
  | localField t fields => exact readLocalRest_of_gives h fields
  | foreignField t fields foreign => exact takeAll_of_gives (fun _ => rfl) h foreign

/-! ## The first token of a line -/

theorem readClass_eq (first : Seen) (e : Entry) :
    d.readClass registered first e =
      if d.table.isSome then .error (first.reject .classRepeated)
      else Control.readOn registered d e .className := by
  rw [Draft.readClass, Control.readOn]
  split
  · rfl
  · cases className e with
    | error refusal => rfl
    | ok named =>
      obtain ⟨domain, rest⟩ := named
      simp only [Except.ok_bind]
      cases registered domain with
      | some t => rfl
      | none =>
        simp only [Draft.readClassRest, classBody]
        cases tableName domain rest with
        | error refusal => rfl
        | ok named =>
          simp only [Except.ok_bind, Draft.readSettingEnd]
          cases endSetting .table named.2 <;> rfl

theorem linkBody_eq (t : Table) (e : Entry) :
    ((linkBody t.domain e).map fun linked =>
        .fresh { d.withLink t linked.1 with docs := d.docs ++ linked.2.toList }) =
      Control.readOn registered d e (.firstLinked t) := by
  rw [Control.readOn, linkBody]
  cases linkedName .first e with
  | error refusal => rfl
  | ok one =>
    simp only [Except.ok_bind, Draft.readLinkRest]
    cases linkedName .second one.2 with
    | error refusal => rfl
    | ok two =>
      simp only [Except.ok_bind, Draft.readSettingEnd]
      cases endSetting .link two.2 <;> rfl

theorem readSetting_eq (first : Seen) (e : Entry) :
    d.readSetting registered first e = (d.beginSetting first >>= Stage.readOn registered e) := by
  rw [Draft.readSetting, Draft.beginSetting]
  split
  · rw [readClass_eq]
    split <;> rfl
  split
  · rw [Draft.readLink]
    cases d.table with
    | none => rfl
    | some t =>
      dsimp only
      split
      · rfl
      · rw [Except.ok_bind, Stage.readOn, ← linkBody_eq]
        cases linkBody t.domain e <;> rfl
  · rfl

theorem takeAll_eq_map {α β : Type} (step : β → Seen → Except Refusal β)
    (judge : β → Seen → Except Refusal α) (keep : α → Draft) (b : β) (e : Entry) :
    Draft.takeAll step (fun b mark => (judge b mark).map keep) b e =
      (do
        let b ← e.tokens.foldlM step b
        let mark ← e.ending.newLine?
        judge b mark).map fun a => .fresh (keep a) := by
  rw [Draft.takeAll]
  cases e.tokens.foldlM step b with
  | error refusal => rfl
  | ok b =>
    cases e.ending.newLine? with
    | error refusal => rfl
    | ok mark =>
      simp only [Except.ok_bind]
      cases judge b mark <;> rfl

theorem beginField_eq (first : Seen) (e : Entry) :
    ((readField t first e).map fun t => .fresh (d.withTable t)) =
      (d.beginField first t >>= Stage.readOn registered e) := by
  rw [readField, Draft.beginField]
  split
  · cases FieldType.ofKeyword? first.token.text with
    | none => rfl
    | some type =>
      simp only [Except.ok_bind, Stage.readOn, Control.readOn]
      cases readTypeLength type e with
      | error refusal => rfl
      | ok length =>
        have all := takeAll_eq_map FieldParts.add (endField t type length.1) d.withTable .start
          length.2
        exact all.symm
  · rfl

theorem beginIndex_eq (first : Seen) (e : Entry) :
    ((readIndex t first e).map fun t => .fresh (d.withTable t)) =
      (d.beginIndex first t >>= Stage.readOn registered e) := by
  rw [readIndex, Draft.beginIndex]
  split
  · have all := takeAll_eq_map (addIndexed t) (endIndex t first) d.withTable
      (Index.empty first.token.text) e
    exact all.symm
  · rfl

theorem readForeignKey_eq (first : Seen) (e : Entry) :
    ((readForeignKey t.domain first e).map fun key => .fresh (d.withForeignKey key)) =
      d.readLocalRest t [] ⟨first :: e.tokens, e.ending⟩ := by
  rw [readForeignKey, Draft.readLocalRest]
  cases readLocalFields e.ending (first :: e.tokens) with
  | error refusal => rfl
  | ok locals =>
    obtain ⟨fields, keyword, rest⟩ := locals
    simp only [Except.ok_bind, List.nil_append]
    cases fields.isEmpty with
    | true => rfl
    | false =>
      have all := takeAll_eq_map ForeignFields.add (endForeignKey t.domain fields) d.withForeignKey
        .start ⟨rest, e.ending⟩
      rw [if_neg Bool.false_ne_true, if_neg Bool.false_ne_true]
      exact all.symm

theorem readMember_eq {α : Type} {first : Seen} {read : Table → Except Refusal α}
    {keep : α → Draft} {begin : Table → Except Refusal Stage}
    (same : ∀ t, ((read t).map fun a => .fresh (keep a)) =
      (begin t >>= Stage.readOn registered e)) :
    d.readMember first (fun t => do return keep (← read t)) =
      (d.beginMember first begin >>= Stage.readOn registered e) := by
  rw [Draft.readMember, Draft.beginMember]
  cases d.table with
  | none => rfl
  | some t =>
    dsimp only
    rw [← same t]
    cases read t <;> rfl

/-- Reading a declaration takes its first token and reads on behind it. -/
theorem Draft.readDeclaration_eq {first : Seen} (inner : first.token.kind ≠ .newLine) (e : Entry) :
    d.readDeclaration registered first e = (d.begin first >>= Stage.readOn registered e) := by
  have keys (t : Table) :
      ((readForeignKey t.domain first e).map fun key => .fresh (d.withForeignKey key)) =
        (d.receiveLocalField t [] first >>= Stage.readOn registered e) := by
    rw [readForeignKey_eq, readLocalRest_of_gives (.token inner)]
  obtain ⟨current, docs, table, link, foreignKeys⟩ := d
  cases current with
  | none => rfl
  | some part =>
    cases part with
    | settings => exact readSetting_eq first e
    | fields => exact readMember_eq fun t => beginField_eq first e
    | indexes => exact readMember_eq fun t => beginIndex_eq first e
    | foreignKeys => exact readMember_eq keys

/-! ## A line that does not come to its end -/

theorem Entry.next_of_stops {ending : Ending} {refusal : Refusal}
    (stops : ending.newLine? = .error refusal) :
    Entry.next ⟨[], ending⟩ = .error refusal := by
  rw [Entry.next, stops]
  rfl

/-- Where no token is left and the line did not end, every reader fails for this reason. -/
theorem Control.readOn_of_stops {ending : Ending} {refusal : Refusal}
    (stops : ending.newLine? = .error refusal) (c : Control) :
    c.readOn registered d ⟨[], ending⟩ = .error refusal := by
  have next := Entry.next_of_stops stops
  have setting (d : Draft) (setting : Setting) :
      d.readSettingEnd setting ⟨[], ending⟩ = .error refusal := by
    rw [Draft.readSettingEnd, endSetting, next]
    rfl
  cases c with
  | className =>
    rw [readOn, Definition.className, next]
    rfl
  | tableName domain =>
    rw [readOn, Draft.readClassRest, Definition.tableName, next]
    rfl
  | settingEnd kind => exact setting d kind
  | commentEnd kind =>
    rw [readOn, next]
    rfl
  | firstLinked t =>
    rw [readOn, linkedName, next]
    rfl
  | secondLinked t one =>
    rw [readOn, Draft.readLinkRest, linkedName, next]
    rfl
  | typeLength t type =>
    rw [readOn, readTypeLength, next]
    rfl
  | number t type withPrecision =>
    rw [readOn, readLength, readNumber, next]
    rfl
  | comma t type size =>
    rw [readOn, readPrecision, next]
    rfl
  | precision t type size =>
    rw [readOn, readNumber, next]
    rfl
  | close t type length =>
    rw [readOn, readClosing, next]
    rfl
  | fieldPart t type length parts =>
    rw [readOn, Draft.readParts, Draft.takeAll, stops]
    rfl
  | indexField t first index =>
    rw [readOn, Draft.readIndexRest, Draft.takeAll, stops]
    rfl
  | localField t fields =>
    rw [readOn, Draft.readLocalRest, readLocalFields, stops]
    rfl
  | foreignField t fields foreign =>
    rw [readOn, Draft.readForeignRest, Draft.takeAll, stops]
    rfl

end

end TableSchema.Definition
