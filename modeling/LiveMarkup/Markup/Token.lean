import LiveMarkup.Markup.Entity

/-!
# Markup tokens

A markup text is a sequence of tags, comments and texts. A left angle bracket starts a tag or a
comment only if a letter, a slash or an exclamation mark follows it; any other is plain text.

* `Token.next`: the token at the front of a text and what follows it.
* `Token.scan`: all tokens of a text, or nothing if some part of it is no token.
-/

namespace LiveMarkup.Markup

/-- A token of a markup text. Attribute values are decoded; the content of a text token is not. -/
inductive Token where
  | opening (name : String) (attributes : List (String × String)) (selfClosing : Bool)
  | closing (name : String)
  | comment (content : String)
  | text (raw : List Char)

/-! ## Character classes -/

/-- The blanks that separate attributes. -/
def isSpace (c : Char) : Bool := c == ' ' || c == '\t' || c == '\r' || c == '\n'

def isLetter (c : Char) : Bool := ('a' ≤ c && c ≤ 'z') || ('A' ≤ c && c ≤ 'Z')

/-- The characters of a tag name after its first, which is a letter. -/
def isNameChar (c : Char) : Bool :=
  isLetter c || ('0' ≤ c && c ≤ '9') || c == '-' || c == '_' || c == ':' || c == '.'

/-- The characters that never belong to an attribute name. -/
def endsAttributeName (c : Char) : Bool :=
  isSpace c || c == '=' || c == '>' || c == '\x22' || c == '\x27' || c == '<'

/-- The characters of an attribute value without quotes. -/
def isBareChar (c : Char) : Bool :=
  !(isSpace c || c == '>' || c == '\x22' || c == '\x27' || c == '=' || c == '<' || c == '\x60')

def skipSpace (cs : List Char) : List Char := cs.dropWhile isSpace

/-! ## The parts of a tag -/

/-- The longest attribute name at the front of a text, maybe empty, and what follows it. A slash
just before a right angle bracket is not part of the name. -/
def attributeName : List Char → List Char × List Char
  | [] => ([], [])
  | c :: cs =>
    if endsAttributeName c || (c == '/' && cs.head? == some '>') then ([], c :: cs)
    else
      let (name, rest) := attributeName cs
      (c :: name, rest)

/-- The characters up to a mark, and what follows the mark. -/
def upTo (mark : Char) : List Char → Option (List Char × List Char)
  | [] => none
  | c :: cs => if c = mark then some ([], cs) else (upTo mark cs).map fun (a, b) => (c :: a, b)

/-- An attribute value, in quotes of either kind or bare, and what follows it. -/
def attributeValue : List Char → Option (List Char × List Char)
  | [] => none
  | c :: cs =>
    if c = '\x22' ∨ c = '\x27' then upTo c cs
    else if isBareChar c then some (c :: cs.takeWhile isBareChar, cs.dropWhile isBareChar)
    else none

/-- The value after an attribute name: an equals sign and a value, or else no value, which reads as
the empty text. -/
def assignedValue (cs : List Char) : List Char × List Char :=
  match skipSpace cs with
  | '=' :: rest => (attributeValue (skipSpace rest)).getD ([], cs)
  | _ => ([], cs)

/-- The attribute at the front of a text: blanks, a name and maybe a value. -/
def readAttribute (cs : List Char) : Option ((String × String) × List Char) :=
  if cs.head?.any isSpace then
    match attributeName (skipSpace cs) with
    | ([], _) => none
    | (name, rest) =>
      let (value, rest) := assignedValue rest
      some ((String.ofList name, String.ofList (Entity.decode value)), rest)
  else none

/-! ## What the parts consume -/

theorem length_skipSpace (cs : List Char) : (skipSpace cs).length ≤ cs.length :=
  (List.dropWhile_sublist _).length_le

theorem length_attributeName (cs : List Char) :
    (attributeName cs).1.length + (attributeName cs).2.length = cs.length := by
  induction cs with
  | nil => rfl
  | cons c cs ih =>
    unfold attributeName
    split
    · simp
    · simp only [List.length_cons]; omega

theorem length_of_upTo {mark : Char} {cs a b : List Char} (h : upTo mark cs = some (a, b)) :
    b.length < cs.length := by
  induction cs generalizing a with
  | nil => simp [upTo] at h
  | cons c cs ih =>
    unfold upTo at h
    split at h
    · cases h; simp
    · obtain ⟨⟨a', b'⟩, h', e⟩ := Option.map_eq_some_iff.1 h
      cases e
      have := ih h'
      simp only [List.length_cons]; omega

theorem length_of_attributeValue {cs v rest : List Char}
    (h : attributeValue cs = some (v, rest)) : rest.length ≤ cs.length := by
  unfold attributeValue at h
  split at h
  · simp at h
  · next c cs =>
    split at h
    · have := length_of_upTo h; simp only [List.length_cons]; omega
    · split at h
      · cases h
        have := (List.dropWhile_sublist (l := cs) isBareChar).length_le
        simp only [List.length_cons]; omega
      · simp at h

theorem length_assignedValue (cs : List Char) : (assignedValue cs).2.length ≤ cs.length := by
  unfold assignedValue
  split
  · next rest hrest =>
    have h1 := length_skipSpace cs
    have h2 := length_skipSpace rest
    rw [hrest] at h1
    cases h : attributeValue (skipSpace rest) with
    | none => simp
    | some p =>
      have := length_of_attributeValue h
      simp only [List.length_cons] at h1
      simp only [Option.getD_some]; omega
  · simp

theorem length_of_readAttribute {cs rest : List Char} {a : String × String}
    (h : readAttribute cs = some (a, rest)) : rest.length < cs.length := by
  unfold readAttribute at h
  split at h
  · next hs =>
    split at h
    · simp at h
    · next name rest' hne hname =>
      have h1 := length_attributeName (skipSpace cs)
      have h2 := length_skipSpace cs
      have h3 := length_assignedValue rest'
      rw [hname] at h1
      have h4 : name ≠ [] := fun e => hne e
      have h5 : 0 < name.length := List.length_pos_iff.2 h4
      simp only [Option.some.injEq, Prod.mk.injEq] at h
      rw [← h.2]
      simp only at h1
      omega
  · simp at h

/-! ## Tags -/

/-- The attributes at the front of a text, and what follows them. -/
def readAttributes (cs : List Char) : List (String × String) × List Char :=
  match h : readAttribute cs with
  | some (a, rest) =>
    have := length_of_readAttribute h
    let (as, rest) := readAttributes rest
    (a :: as, rest)
  | none => ([], cs)
termination_by cs.length

/-- The end of an opening tag: whether it closes itself, and what follows. -/
def tagEnd : List Char → Option (Bool × List Char)
  | '/' :: '>' :: rest => some (true, rest)
  | '>' :: rest => some (false, rest)
  | _ => none

/-- An opening tag whose angle bracket has been read. -/
def openingTag (cs : List Char) : Option (Token × List Char) := do
  let name := cs.takeWhile isNameChar
  let (as, rest) := readAttributes (cs.dropWhile isNameChar)
  let (selfClosing, rest) ← tagEnd (skipSpace rest)
  some (.opening (String.ofList name) as selfClosing, rest)

/-- A closing tag whose angle bracket and slash have been read. -/
def closingTag (cs : List Char) : Option (Token × List Char) :=
  let name := cs.takeWhile isNameChar
  match skipSpace (cs.dropWhile isNameChar) with
  | '>' :: rest => some (.closing (String.ofList name), rest)
  | _ => none

/-- The characters up to the end mark of a comment, and what follows it. -/
def commentBody : List Char → Option (List Char × List Char)
  | '-' :: '-' :: '>' :: rest => some ([], rest)
  | c :: cs => (commentBody cs).map fun (a, b) => (c :: a, b)
  | [] => none

/-- Whether a text starts with the start of a tag or comment. -/
def startsTag : List Char → Bool
  | '<' :: c :: _ => isLetter c || c == '/' || c == '!'
  | _ => false

/-- The characters before the next tag or comment, and what follows them. -/
def textRun : List Char → List Char × List Char
  | [] => ([], [])
  | c :: cs =>
    if startsTag (c :: cs) then ([], c :: cs)
    else
      let (a, b) := textRun cs
      (c :: a, b)

/-- The token at the front of a text, and what follows it. -/
def Token.next (cs : List Char) : Option (Token × List Char) :=
  if startsTag cs then
    match cs with
    | '<' :: '!' :: '-' :: '-' :: rest =>
      (commentBody rest).map fun (body, rest) => (.comment (String.ofList body), rest)
    | '<' :: '!' :: _ => none
    | '<' :: '/' :: rest => closingTag rest
    | _ :: rest => openingTag rest
    | [] => none
  else
    let (raw, rest) := textRun cs
    some (.text raw, rest)

/-! ## What the tokens consume -/

theorem length_readAttributes (cs : List Char) : (readAttributes cs).2.length ≤ cs.length := by
  fun_induction readAttributes cs with
  | case1 cs a rest h hlt as rest' heq ih =>
    rw [heq] at ih
    exact Nat.le_of_lt (Nat.lt_of_le_of_lt ih hlt)
  | case2 => simp

theorem length_of_tagEnd {cs rest : List Char} {b : Bool} (h : tagEnd cs = some (b, rest)) :
    rest.length < cs.length := by
  unfold tagEnd at h
  split at h
  · cases h; simp only [List.length_cons]; omega
  · cases h; simp only [List.length_cons]; omega
  · cases h

theorem length_of_openingTag {cs rest : List Char} {t : Token}
    (h : openingTag cs = some (t, rest)) : rest.length < cs.length := by
  unfold openingTag at h
  have h1 := length_readAttributes (cs.dropWhile isNameChar)
  have h2 := (List.dropWhile_sublist (l := cs) isNameChar).length_le
  have h3 := length_skipSpace (readAttributes (cs.dropWhile isNameChar)).2
  cases he : tagEnd (skipSpace (readAttributes (cs.dropWhile isNameChar)).2) with
  | none => simp [he] at h
  | some p =>
    have h4 := length_of_tagEnd he
    simp only [he, Option.bind_eq_bind, Option.bind_some, Option.some.injEq, Prod.mk.injEq] at h
    rw [← h.2]
    omega

theorem length_of_closingTag {cs rest : List Char} {t : Token}
    (h : closingTag cs = some (t, rest)) : rest.length < cs.length := by
  unfold closingTag at h
  have h1 := length_skipSpace (cs.dropWhile isNameChar)
  have h2 := (List.dropWhile_sublist (l := cs) isNameChar).length_le
  dsimp only at h
  split at h
  · next heq =>
    cases h
    rw [heq, List.length_cons] at h1
    omega
  · simp at h

theorem length_of_commentBody {cs a b : List Char} (h : commentBody cs = some (a, b)) :
    b.length < cs.length := by
  fun_induction commentBody cs generalizing a with
  | case1 rest => cases h; simp; omega
  | case2 c cs _ ih =>
    obtain ⟨⟨a', b'⟩, h', e⟩ := Option.map_eq_some_iff.1 h
    cases e
    have := ih h'
    simp only [List.length_cons]; omega
  | case3 => simp at h

theorem length_textRun (cs : List Char) :
    (textRun cs).1.length + (textRun cs).2.length = cs.length := by
  induction cs with
  | nil => rfl
  | cons c cs ih =>
    unfold textRun
    split
    · simp
    · simp only [List.length_cons]; omega

theorem length_of_next {c : Char} {cs rest : List Char} {t : Token}
    (h : Token.next (c :: cs) = some (t, rest)) : rest.length < cs.length + 1 := by
  rw [← List.length_cons (a := c)]
  unfold Token.next at h
  split at h
  · split at h
    · next r heq =>
      obtain ⟨⟨a, b⟩, h', e⟩ := Option.map_eq_some_iff.1 h
      cases e
      have := length_of_commentBody h'
      rw [heq]; simp only [List.length_cons]; omega
    · cases h
    · next r heq =>
      have := length_of_closingTag h
      rw [heq]; simp only [List.length_cons]; omega
    · next d r _ _ _ heq =>
      have := length_of_openingTag h
      rw [heq]; simp only [List.length_cons]; omega
    · cases h
  · next hs =>
    have h1 := length_textRun cs
    have h2 : textRun (c :: cs) = (c :: (textRun cs).1, (textRun cs).2) := by
      rw [textRun, if_neg hs]
    rw [h2] at h
    cases h
    rw [List.length_cons]
    omega

/-- The tokens of a text. -/
def Token.scan : List Char → Option (List Token)
  | [] => some []
  | c :: cs =>
    match h : Token.next (c :: cs) with
    | some (t, rest) =>
      have := length_of_next h
      (Token.scan rest).map (t :: ·)
    | none => none
termination_by cs => cs.length

end LiveMarkup.Markup
