import TableSchema.Proofs.Text.Lines

/-!
Texts as bytes.

No other character has the byte of a line feed in it, so the lines of a text are cut in the same
places whether one looks at its characters or at its bytes. Bytes that begin with some whole lines
of text have these lines, and then those of the bytes behind them (`SourceLine.ofBytes_append`).
-/

namespace TableSchema.Text

/-- The bytes of a text in UTF-8. -/
def utf8 (text : String) : List UInt8 := text.toUTF8.data.toList

/-- The bytes of some characters in UTF-8. -/
def encode (cs : List Char) : List UInt8 := cs.flatMap String.utf8EncodeChar

theorem utf8_eq_encode (text : String) : utf8 text = encode text.toList := by
  show text.toByteArray.data.toList = _
  rw [← String.utf8Encode_toList]
  exact List.toList_data_toByteArray

theorem encode_append (front back : List Char) :
    encode (front ++ back) = encode front ++ encode back :=
  List.flatMap_append

theorem encode_lineFeed_cons (cs : List Char) : encode ('\n' :: cs) = 10 :: encode cs := rfl

theorem encode_ne_nil {cs : List Char} (filled : cs ≠ []) : encode cs ≠ [] := by
  obtain ⟨c, rest, rfl⟩ := List.exists_cons_of_ne_nil filled
  have first : String.utf8EncodeChar c ≠ [] := by
    rw [← List.length_pos_iff, String.length_utf8EncodeChar]
    exact c.utf8Size_pos
  simp [encode, first]

/-- The byte of a line feed stands for a line feed. -/
theorem eq_lineFeed_of_mem {c : Char} (h : 10 ∈ String.utf8EncodeChar c) : c = '\n' := by
  have value {n : Nat} (same : (10 : UInt8) = UInt8.ofNat n) : n % 256 = 10 :=
    (congrArg UInt8.toNat same).symm
  rw [String.utf8EncodeChar.eq_def] at h
  dsimp only at h
  split at h
  · have code := value (List.mem_singleton.mp h)
    have same : c.val.toNat = 10 := by omega
    exact Char.ext (UInt32.toNat_inj.mp same)
  · -- all bytes of a longer character are above the line feed
    exfalso
    split at h
    · simp only [List.mem_cons, List.not_mem_nil, or_false] at h
      rcases h with same | same <;> have := value same <;> omega
    · split at h <;> simp only [List.mem_cons, List.not_mem_nil, or_false] at h
      · rcases h with same | same | same <;> have := value same <;> omega
      · rcases h with same | same | same | same <;> have := value same <;> omega

theorem lineFeed_mem_encode {cs : List Char} : 10 ∈ encode cs ↔ '\n' ∈ cs := by
  constructor
  · intro inside
    obtain ⟨c, hc, inside⟩ := List.mem_flatMap.mp inside
    exact eq_lineFeed_of_mem inside ▸ hc
  · intro inside
    exact List.mem_flatMap.mpr ⟨'\n', inside, List.mem_singleton.mpr rfl⟩

theorem ne_lineFeed_of_not_mem_encode {cs : List Char} (unbroken : '\n' ∉ cs) :
    ∀ b ∈ encode cs, (b == 10) = false := by
  intro b hb
  rw [beq_eq_false_iff_ne]
  rintro rfl
  exact unbroken (lineFeed_mem_encode.mp hb)

theorem fromUTF8?_utf8 (text : String) : String.fromUTF8? ⟨(utf8 text).toArray⟩ = some text :=
  dif_pos text.isValidUTF8

theorem eq_utf8_of_fromUTF8? {bytes : List UInt8} {text : String}
    (h : String.fromUTF8? ⟨bytes.toArray⟩ = some text) : bytes = utf8 text := by
  unfold String.fromUTF8? at h
  split at h
  · cases h
    rfl
  · cases h

/-- The bytes of a line are read as its text. -/
theorem SourceLine.decode_encode (cs : List Char) :
    SourceLine.decode (encode cs) = .readable (lineText cs) := by
  have bytes : encode cs = utf8 (String.ofList cs) := by
    rw [utf8_eq_encode, String.toList_ofList]
  rw [SourceLine.decode, bytes, fromUTF8?_utf8]
  simp only [String.toList_ofList]

/-- The lines of characters are the same in their bytes. What comes behind them begins a line of its
own, if it comes behind the end of a line. -/
theorem SourceLine.ofBytes_encode_append {cs : List Char} {back : List UInt8}
    (ended : (∀ c ∈ cs.getLast?, c = '\n') ∨ back = []) :
    SourceLine.ofBytes (encode cs ++ back) =
      (cutLines (· == '\n') cs).map (fun cs => .readable (lineText cs)) ++
        SourceLine.ofBytes back := by
  induction cs using lines_induction with
  | nil => rfl
  | last cs filled unbroken =>
    obtain ⟨c, rest, rfl⟩ := List.exists_cons_of_ne_nil filled
    have noBack : back = [] := by
      refine ended.resolve_left fun ended => unbroken ?_
      have last := List.getLast?_eq_some_getLast filled
      exact ended _ last ▸ List.getLast_mem filled
    obtain ⟨b, bytes, split⟩ := List.exists_cons_of_ne_nil (encode_ne_nil filled)
    have unended := ne_lineFeed_of_not_mem_encode unbroken
    rw [noBack, cutLines_of_unended (ne_lineFeed_of_not_mem unbroken), SourceLine.ofBytes,
      List.append_nil, split, cutLines_of_unended (split ▸ unended), ← split]
    exact congrArg (fun line => [line]) (SourceLine.decode_encode _)
  | line front rest unbroken ih =>
    have later : (∀ c ∈ rest.getLast?, c = '\n') ∨ back = [] := by
      refine ended.imp_left fun ended c hc => ended c ?_
      simp [List.getLast?_append, List.getLast?_cons, Option.mem_def.mp hc]
    have cut := ih later
    unfold SourceLine.ofBytes at cut ⊢
    rw [encode_append, encode_lineFeed_cons, List.append_assoc, List.cons_append,
      cutLines_append_cons rfl _ _ (ne_lineFeed_of_not_mem_encode unbroken),
      cutLines_append_cons rfl _ _ (ne_lineFeed_of_not_mem unbroken), List.map_cons, List.map_cons,
      cut, SourceLine.decode_encode, List.cons_append]

theorem ended_of_getLast? {cs : List Char} (last : cs.getLast? = some '\n') :
    ∀ c ∈ cs.getLast?, c = '\n' := by
  intro c hc
  rw [last] at hc
  exact (Option.some.inj hc).symm

/-- A text that is empty or ends with a line feed, and bytes behind it. -/
theorem SourceLine.ofBytes_append {text : String} (ended : ∀ c ∈ text.toList.getLast?, c = '\n')
    (back : List UInt8) :
    SourceLine.ofBytes (utf8 text ++ back) = SourceLine.ofText text ++ SourceLine.ofBytes back := by
  rw [utf8_eq_encode]
  exact SourceLine.ofBytes_encode_append (.inl ended)

/-- A text has the same lines as its bytes. -/
theorem SourceLine.ofBytes_utf8 (text : String) :
    SourceLine.ofBytes (utf8 text) = SourceLine.ofText text := by
  have lines := @SourceLine.ofBytes_encode_append text.toList [] (.inr rfl)
  rw [List.append_nil, ← utf8_eq_encode] at lines
  exact lines.trans (List.append_nil _)

/-- The lines of two texts, if the first is empty or ends with a line feed. -/
theorem SourceLine.ofText_append {a : String} (ended : ∀ c ∈ a.toList.getLast?, c = '\n')
    (b : String) : SourceLine.ofText (a ++ b) = SourceLine.ofText a ++ SourceLine.ofText b := by
  have bytes : utf8 (a ++ b) = utf8 a ++ utf8 b := by
    simp only [utf8_eq_encode, String.toList_append, encode_append]
  rw [← ofBytes_utf8, bytes, ofBytes_append ended, ofBytes_utf8]

theorem SourceLine.ofText_line {line : String} (unbroken : '\n' ∉ line.toList) :
    SourceLine.ofText (line ++ "\n") = [.readable (lineText line.toList)] := by
  have split : (line ++ "\n").toList = line.toList ++ '\n' :: [] := String.toList_append
  rw [SourceLine.ofText, split, cutLines_append_cons rfl _ _ (ne_lineFeed_of_not_mem unbroken)]
  rfl

/-- No line has a line feed in it. -/
theorem SourceLine.unbroken_ofBytes {bytes : List UInt8} {cs : List Char}
    (h : .readable cs ∈ SourceLine.ofBytes bytes) : '\n' ∉ cs := by
  obtain ⟨line, inside, decoded⟩ := List.mem_map.mp h
  unfold SourceLine.decode at decoded
  split at decoded
  · rename_i text read
    obtain rfl := SourceLine.readable.inj decoded
    obtain rfl := eq_utf8_of_fromUTF8? read
    have unbroken : '\n' ∉ text.toList := fun broken => by
      have feed : 10 ∈ utf8 text := by
        rw [utf8_eq_encode]
        exact lineFeed_mem_encode.mpr broken
      simpa using not_endsLine_of_mem_cutLines _ inside 10 feed
    exact (exists_returns unbroken).1.1
  · cases decoded

end TableSchema.Text
