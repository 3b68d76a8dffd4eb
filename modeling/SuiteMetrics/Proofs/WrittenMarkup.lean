import SuiteMetrics.Proofs.CharacterData
import SuiteMetrics.Proofs.SettledMarkup

/-!
Markup as it is written.

Names, attributes, tags and documents as data that can only be well formed, each with its text,
and what the reader makes of that text: the attribute that is looked for (`lookup_attributes`),
the event of a piece of markup (`Markup.read`) and the events of a document
(`Document.events_text`).
-/

namespace SuiteMetrics.Xml

open Text (Blanks dropWhile_blanks isMarkupBlank)

/-- Whether a character can stand in a name. -/
def isNameChar (c : Char) : Bool :=
  !isMarkupBlank c && c ∉ ['<', '>', '/', '=', '"', '\'', '!', '?']

/-- The name of an element or an attribute, with its prefix. -/
structure Name where
  chars : List Char
  nonempty : chars ≠ []
  plain : ∀ c ∈ chars, isNameChar c = true

/-- The quotes around the value of an attribute. -/
inductive Quote where
  | single
  | double

def Quote.char : Quote → Char
  | .single => '\''
  | .double => '"'

/-- An attribute: at least one blank, a name, an equals sign and a value in quotes, with blanks on
either side of the sign. -/
structure Attribute where
  blank : { c : Char // isMarkupBlank c = true }
  blanks : Blanks
  name : Name
  before : Blanks
  after : Blanks
  quote : Quote
  value : List Char
  closes : quote.char ∉ value

/-- The inside of a start tag: the name of the element, attributes and blanks. -/
structure Tag where
  name : Name
  attributes : List Attribute
  blanks : Blanks

/-- The value in quotes. -/
def Attribute.quoted (a : Attribute) : List Char :=
  a.quote.char :: (a.value ++ [a.quote.char])

def Attribute.text (a : Attribute) : List Char :=
  a.blank :: (a.blanks ++ (a.name.chars ++ (a.before ++ '=' :: (a.after ++ a.quoted))))

/-- The text after the name of a tag. -/
def Tag.rest (t : Tag) : List Char := t.attributes.flatMap Attribute.text ++ t.blanks

def Tag.text (t : Tag) : List Char := t.name.chars ++ t.rest

/-! ### Characters -/

theorem isMarkupBlank_of_isNameChar {c : Char} (h : isNameChar c = true) :
    isMarkupBlank c = false := by
  simp only [isNameChar, Bool.and_eq_true, Bool.not_eq_true'] at h
  exact h.1

theorem ne_of_isNameChar {c d : Char} (h : isNameChar c = true) (mark : isNameChar d = false) :
    c ≠ d := by
  rintro rfl
  simp [h] at mark

theorem ne_of_isMarkupBlank {c d : Char} (h : isMarkupBlank c = true)
    (mark : isMarkupBlank d = false) : c ≠ d := by
  rintro rfl
  simp [h] at mark

theorem Quote.char_ne (q : Quote) : q.char ≠ '/' ∧ q.char ≠ '>' := by
  cases q <;> decide

theorem Quote.char_eq (q : Quote) : q.char = '"' ∨ q.char = '\'' := by
  cases q <;> simp [Quote.char]

/-! ### Where a tag ends -/

/-- Whether the end of a tag is looked for behind a text, all of whose quotes are closed in it. -/
def Passed (s : List Char) : Prop :=
  ∀ before rest, cutTag none before (s ++ rest) = cutTag none (s.reverse ++ before) rest

theorem Passed.append {s s' : List Char} (h : Passed s) (h' : Passed s') : Passed (s ++ s') := by
  intro before rest
  rw [List.append_assoc, h, h', List.reverse_append, List.append_assoc]

theorem Passed.cut {s : List Char} (h : Passed s) (more : List Char) :
    cutTag none [] (s ++ '>' :: more) = some (s, more) := by
  rw [h]
  simp [cutTag]

theorem passed_nil : Passed [] := fun _ _ => rfl

theorem passed_char {c : Char} (ends : c ≠ '>') (double : c ≠ '"') (single : c ≠ '\'') :
    Passed [c] := by
  intro before rest
  simp [cutTag, ends, double, single]

theorem passed_plain {s : List Char} (plain : ∀ c ∈ s, Passed [c]) : Passed s := by
  induction s with
  | nil => exact passed_nil
  | cons c s ih =>
      exact (plain c List.mem_cons_self).append (s := [c])
        (ih fun c hc => plain c (List.mem_cons_of_mem _ hc))

theorem passed_name (n : Name) : Passed n.chars :=
  passed_plain fun c hc => passed_char (ne_of_isNameChar (n.plain c hc) rfl)
    (ne_of_isNameChar (n.plain c hc) rfl) (ne_of_isNameChar (n.plain c hc) rfl)

theorem passed_blank {c : Char} (h : isMarkupBlank c = true) : Passed [c] :=
  passed_char (ne_of_isMarkupBlank h rfl) (ne_of_isMarkupBlank h rfl) (ne_of_isMarkupBlank h rfl)

theorem passed_blanks (b : Blanks) : Passed b := passed_plain fun c hc => passed_blank (b.2 c hc)

theorem cutTag_quote {quote : Char} {s : List Char} (closes : quote ∉ s) (before rest : List Char) :
    cutTag (some quote) before (s ++ quote :: rest) =
      cutTag none (quote :: (s.reverse ++ before)) rest := by
  induction s generalizing before with
  | nil => simp [cutTag]
  | cons c s ih =>
      have hc : c ≠ quote := fun same => closes (by simp [same])
      rw [List.cons_append, cutTag]
      simp only [if_neg hc]
      rw [ih fun h => closes (List.mem_cons_of_mem _ h)]
      simp

theorem passed_quoted (a : Attribute) : Passed a.quoted := by
  intro before rest
  have opens : cutTag none before (a.quote.char :: (a.value ++ a.quote.char :: rest)) =
      cutTag (some a.quote.char) (a.quote.char :: before) (a.value ++ a.quote.char :: rest) := by
    rw [cutTag]
    simp only [if_neg a.quote.char_ne.2, if_pos a.quote.char_eq]
  simp only [Attribute.quoted, List.cons_append, List.append_assoc, List.nil_append]
  rw [opens, cutTag_quote a.closes]
  simp

theorem passed_attribute (a : Attribute) : Passed a.text := by
  have equals : Passed ['='] := passed_char (by decide) (by decide) (by decide)
  exact (passed_blank a.blank.2).append <| (passed_blanks a.blanks).append <|
    (passed_name a.name).append <| (passed_blanks a.before).append <|
    equals.append <| (passed_blanks a.after).append (passed_quoted a)

theorem passed_text (t : Tag) : Passed t.text := by
  have attributes : Passed (t.attributes.flatMap Attribute.text) := by
    induction t.attributes with
    | nil => exact passed_nil
    | cons a attributes ih => exact (passed_attribute a).append ih
  exact (passed_name t.name).append (attributes.append (passed_blanks t.blanks))

/-! ### The event of a tag -/

theorem span_stop {p : Char → Bool} {front back : List Char} (all : ∀ c ∈ front, p c = true)
    (stops : ∀ c, back.head? = some c → p c = false) :
    (front ++ back).takeWhile p = front ∧ (front ++ back).dropWhile p = back := by
  rw [List.takeWhile_append_of_pos all, List.dropWhile_append_of_pos all]
  cases back with
  | nil => simp
  | cons c r => simp [stops c rfl]

theorem blank_of_rest (t : Tag) : ∀ c, t.rest.head? = some c → isMarkupBlank c = true := by
  intro c h
  unfold Tag.rest at h
  cases attributes : t.attributes with
  | nil =>
      rw [attributes, List.flatMap_nil, List.nil_append] at h
      exact t.blanks.2 c (List.mem_of_mem_head? h)
  | cons a others =>
      rw [attributes, List.flatMap_cons] at h
      obtain rfl : a.blank.1 = c := by simpa [Attribute.text] using h
      exact a.blank.2

/-- The name of a tag ends at the first blank. -/
theorem span_text (t : Tag) :
    t.text.takeWhile (!isMarkupBlank ·) = t.name.chars ∧
      t.text.dropWhile (!isMarkupBlank ·) = t.rest := by
  refine span_stop (fun c hc => ?_) fun c hc => ?_
  · rw [isMarkupBlank_of_isNameChar (t.name.plain c hc)]
    rfl
  · rw [blank_of_rest t c hc]
    rfl

theorem getLast?_attribute (a : Attribute) : a.text.getLast? = some a.quote.char := by
  have ends : a.text = (a.blank.1 :: (a.blanks.1 ++ (a.name.chars ++ (a.before.1 ++
      '=' :: (a.after.1 ++ a.quote.char :: a.value))))) ++ [a.quote.char] := by
    simp [Attribute.text, Attribute.quoted]
  rw [ends, List.getLast?_concat]

theorem getLast?_text_ne (t : Tag) : t.text.getLast? ≠ some '/' := by
  intro last
  have mem : t.blanks.1.getLast? = some '/' ∨
      (t.attributes.flatMap Attribute.text).getLast? = some '/' ∨
      t.name.chars.getLast? = some '/' := by
    simp only [Tag.text, Tag.rest, List.getLast?_append, Option.or_eq_some_iff] at last
    tauto
  obtain blank | quoted | name := mem
  · have := t.blanks.2 _ (List.mem_of_getLast? blank)
    simp [isMarkupBlank] at this
  · obtain none_ | ⟨front, a, some_⟩ := t.attributes.eq_nil_or_concat
    · simp [none_] at quoted
    · rw [some_, List.concat_eq_append, List.flatMap_append] at quoted
      have : a.quote.char = '/' := by
        simpa [List.getLast?_append, getLast?_attribute] using quoted
      exact a.quote.char_ne.1 this
  · have := t.name.plain _ (List.mem_of_getLast? name)
    simp [isNameChar] at this

theorem tagEvent_text (t : Tag) : tagEvent t.text = .opening t.name.chars t.rest := by
  unfold tagEvent
  split
  · rename_i back same
    have last : t.text.getLast? = some '/' := by
      rw [← List.head?_reverse, same]
      rfl
    exact absurd last (getLast?_text_ne t)
  · rw [(span_text t).1, (span_text t).2]

theorem tagEvent_text_slash (t : Tag) :
    tagEvent (t.text ++ ['/']) = .empty t.name.chars t.rest := by
  simp [tagEvent, (span_text t).1, (span_text t).2]

/-! ### Attributes -/

theorem firstAttribute_text (a : Attribute) (rest : List Char) :
    firstAttribute (a.text ++ rest) = .found a.name.chars a.value rest := by
  obtain ⟨c, cs, name⟩ := List.exists_cons_of_ne_nil a.name.nonempty
  have plain : ∀ d ∈ c :: cs, isNameChar d = true := name ▸ a.name.plain
  have start : (a.text ++ rest).dropWhile isMarkupBlank =
      c :: (cs ++ (a.before ++ '=' :: (a.after ++ (a.quoted ++ rest)))) := by
    have := dropWhile_blanks a.blanks (isMarkupBlank_of_isNameChar (plain c List.mem_cons_self))
      (cs ++ (a.before ++ '=' :: (a.after ++ (a.quoted ++ rest))))
    simpa [Attribute.text, name, a.blank.2] using this
  -- the name goes on to the blanks before the equals sign, or to the sign
  have inName : (cs ++ (a.before ++ '=' :: (a.after ++ (a.quoted ++ rest)))).takeWhile
        (fun d => d != '=' && !isMarkupBlank d) = cs ∧
      (cs ++ (a.before ++ '=' :: (a.after ++ (a.quoted ++ rest)))).dropWhile
        (fun d => d != '=' && !isMarkupBlank d) =
          a.before ++ '=' :: (a.after ++ (a.quoted ++ rest)) := by
    refine span_stop (fun d hd => ?_) fun d hd => ?_
    · have := plain d (List.mem_cons_of_mem _ hd)
      simp [ne_of_isNameChar this (d := '=') rfl, isMarkupBlank_of_isNameChar this]
    · cases blanks : a.before.1 with
      | nil =>
          obtain rfl : '=' = d := by simpa [blanks] using hd
          rfl
      | cons e es =>
          obtain rfl : e = d := by simpa [blanks] using hd
          have blank := a.before.2 e (by simp [blanks])
          simp [blank]
  have value : Text.splitFirst a.quote.char (a.value ++ a.quote.char :: rest) =
      some (a.value, rest) := Text.splitFirst_append a.closes rest
  have quote := dropWhile_blanks a.after (c := a.quote.char) (by cases a.quote <;> rfl)
    (a.value ++ a.quote.char :: rest)
  unfold firstAttribute
  rw [start]
  dsimp only
  rw [inName.1, inName.2, dropWhile_blanks a.before rfl]
  simp only [Attribute.quoted, List.cons_append, List.append_assoc, List.nil_append] at quote ⊢
  rw [quote]
  simp only [if_pos a.quote.char_eq, value, name]

/-- A tag has an attribute with a local name and a text: the first with this local name, no two
before it having the same name. -/
def Tag.Has (t : Tag) (key : String) (text : List Char) : Prop :=
  ∃ earlier a later, t.attributes = earlier ++ a :: later ∧
    (∀ b ∈ earlier, localName b.name.chars ≠ key.toList) ∧
    (earlier.map (·.name.chars)).Nodup ∧
    localName a.name.chars = key.toList ∧ Spells a.value text

theorem lookupFrom_attributes {sought : List Char} {earlier : List Attribute} {a : Attribute}
    {text : List Char} (here : localName a.name.chars = sought) (spells : Spells a.value text)
    (others : ∀ b ∈ earlier, localName b.name.chars ≠ sought)
    (distinct : (earlier.map (·.name.chars)).Nodup) (rest : List Char) {fuel : Nat}
    (enough : earlier.length < fuel) {seen : List (List Char)}
    (new : ∀ b ∈ earlier, b.name.chars ∉ seen) (passed : ∀ n ∈ seen, localName n ≠ sought) :
    lookupFrom sought fuel seen (earlier.flatMap Attribute.text ++ (a.text ++ rest)) =
      .value text := by
  induction earlier generalizing fuel seen with
  | nil =>
      obtain ⟨fuel, rfl⟩ := Nat.exists_eq_add_one_of_ne_zero (Nat.ne_of_gt enough)
      have unseen : ¬ seen.contains a.name.chars = true := by
        rw [List.contains_iff_mem]
        exact fun h => passed _ h here
      simp only [List.flatMap_nil, List.nil_append, lookupFrom, firstAttribute_text, if_neg unseen,
        if_pos here, spells.unescape?]
  | cons b earlier ih =>
      obtain ⟨fuel, rfl⟩ := Nat.exists_eq_add_one_of_ne_zero (by omega : fuel ≠ 0)
      have unseen : ¬ seen.contains b.name.chars = true := by
        rw [List.contains_iff_mem]
        exact new b List.mem_cons_self
      have other := others b List.mem_cons_self
      obtain ⟨notLater, distinct⟩ := List.nodup_cons.1 distinct
      simp only [List.flatMap_cons, List.append_assoc, lookupFrom, firstAttribute_text,
        if_neg unseen, if_neg other]
      refine ih (fun c hc => others c (List.mem_cons_of_mem _ hc)) distinct
        (Nat.lt_of_succ_lt_succ enough) (fun c hc h => ?_) fun n hn => ?_
      · obtain same | h := List.mem_cons.1 h
        · exact notLater (List.mem_map.2 ⟨c, hc, same⟩)
        · exact new c (List.mem_cons_of_mem _ hc) h
      · obtain rfl | hn := List.mem_cons.1 hn
        · exact other
        · exact passed n hn

theorem length_le_flatMap_text (as : List Attribute) :
    as.length ≤ (as.flatMap Attribute.text).length := by
  induction as with
  | nil => simp
  | cons a as ih =>
      simp only [List.flatMap_cons, List.length_append, List.length_cons, Attribute.text]
      omega

theorem lookup_rest {t : Tag} {key : String} {text : List Char} (h : t.Has key text) :
    lookup key t.rest = .value text := by
  obtain ⟨earlier, a, later, attributes, others, distinct, here, spells⟩ := h
  have split : t.rest = earlier.flatMap Attribute.text ++
      (a.text ++ (later.flatMap Attribute.text ++ t.blanks)) := by
    simp [Tag.rest, attributes]
  have enough : earlier.length < t.rest.length + 1 := by
    have := length_le_flatMap_text earlier
    rw [split, List.length_append]
    omega
  rw [lookup, split]
  exact lookupFrom_attributes here spells others distinct _ (split ▸ enough) (by simp) (by simp)

/-! ### Pieces of markup -/

/-- A piece of markup. Comments, processing instructions, document types and CDATA sections are
written as the reader takes them. -/
inductive Markup where
  | opening (tag : Tag)
  | empty (tag : Tag)
  | closing (name : Name) (blanks : Blanks)
  | aside (written : List Char) (reads : markup? written = some (.silent, []))
  | section_ (inside written : List Char) (reads : markup? written = some (.cdata inside, []))

/-- The text of a piece of markup after its opening bracket. -/
def Markup.text : Markup → List Char
  | .opening tag => tag.text ++ ['>']
  | .empty tag => tag.text ++ ['/', '>']
  | .closing name blanks => '/' :: (name.chars ++ blanks ++ ['>'])
  | .aside written _ => written
  | .section_ _ written _ => written

def Markup.event : Markup → Event
  | .opening tag => .opening tag.name.chars tag.rest
  | .empty tag => .empty tag.name.chars tag.rest
  | .closing name _ => .closing name.chars
  | .aside _ _ => .silent
  | .section_ inside _ _ => .cdata inside

theorem markup?_text (t : Tag) (s : List Char) :
    markup? (t.text ++ s) = (cutTag none [] (t.text ++ s)).map fun (inside, r) =>
      (tagEvent inside, r) := by
  obtain ⟨c, cs, name⟩ := List.exists_cons_of_ne_nil t.name.nonempty
  have plain : isNameChar c = true := t.name.plain c (by simp [name])
  have first : t.text ++ s = c :: (cs ++ t.rest ++ s) := by simp [Tag.text, name]
  rw [first]
  exact markup?_tag (ne_of_isNameChar plain rfl) (ne_of_isNameChar plain rfl)
    (ne_of_isNameChar plain rfl)

theorem dropEnd_name (n : Name) (b : Blanks) :
    Text.dropEndWhile isMarkupBlank (n.chars ++ b) = n.chars := by
  have back : (n.chars.reverse).dropWhile isMarkupBlank = n.chars.reverse := by
    obtain ⟨c, cs, name⟩ := List.exists_cons_of_ne_nil (List.reverse_ne_nil_iff.2 n.nonempty)
    have plain : isNameChar c = true :=
      n.plain c (List.mem_reverse.1 (by rw [name]; exact List.mem_cons_self))
    rw [name, List.dropWhile_cons, isMarkupBlank_of_isNameChar plain]
    rfl
  rw [Text.dropEndWhile, List.reverse_append, List.dropWhile_append_of_pos, back,
    List.reverse_reverse]
  exact fun c hc => b.2 c (List.mem_reverse.1 hc)

theorem not_all_blank (n : Name) (b : Blanks) : ¬ (n.chars ++ b).all isMarkupBlank = true := by
  intro all
  obtain ⟨c, cs, name⟩ := List.exists_cons_of_ne_nil n.nonempty
  have plain : isNameChar c = true := n.plain c (by simp [name])
  have blank := List.all_eq_true.1 all c (by simp [name])
  simp [isMarkupBlank_of_isNameChar plain] at blank

/-- A piece of markup is read as its event, whatever follows. -/
theorem Markup.read (m : Markup) (more : List Char) :
    markup? (m.text ++ more) = some (m.event, more) := by
  cases m with
  | opening tag =>
      simp only [text, List.append_assoc, List.singleton_append]
      simp only [markup?_text, (passed_text tag).cut, Option.map_some, tagEvent_text, event]
  | empty tag =>
      have slash : Passed ['/'] := passed_char (by decide) (by decide) (by decide)
      have cut := ((passed_text tag).append slash).cut more
      simp only [text, List.append_assoc, List.cons_append, List.nil_append] at cut ⊢
      simp only [markup?_text, cut, Option.map_some, tagEvent_text_slash, event]
  | closing name blanks =>
      have cut := ((passed_name name).append (passed_blanks blanks)).cut more
      simp only [text, List.append_assoc, List.cons_append, List.nil_append] at cut ⊢
      simp only [markup?, cut, Option.map_some, if_neg (not_all_blank name blanks), dropEnd_name,
        event]
  | aside written reads => exact settled_markup? reads more
  | section_ inside written reads => exact settled_markup? reads more

/-! ### Documents -/

/-- Character data and the markup behind it. -/
structure Part where
  data : List Char
  plain : '<' ∉ data
  markup : Markup

def Part.text (p : Part) : List Char := p.data ++ '<' :: p.markup.text

def Part.events (p : Part) : List Event := dataEvents p.data ++ [p.markup.event]

/-- A document: parts in which every element is closed, with blanks in front, and character data at
the end. A byte order mark may come first. -/
structure Document where
  marked : Bool
  first : Part
  blank : ∀ c ∈ first.data, isMarkupBlank c = true
  others : List Part
  last : List Char
  plain : '<' ∉ last
  nested : ((first :: others).map (·.markup.event)).foldlM openAfter? [] = some []

namespace Document

def parts (d : Document) : List Part := d.first :: d.others

def body (d : Document) : List Char := d.parts.flatMap Part.text ++ d.last

def text (d : Document) : List Char := if d.marked then '\ufeff' :: d.body else d.body

end Document

theorem eventsFrom_parts {parts : List Part} {last : List Char} (plain : '<' ∉ last)
    {names inner : List (List Char)}
    (nested : (parts.map (·.markup.event)).foldlM openAfter? names = some inner) {fuel : Nat}
    (enough : parts.length < fuel) :
    eventsFrom fuel names (parts.flatMap Part.text ++ last) =
      ⟨parts.flatMap Part.events ++ dataEvents last, true⟩ := by
  induction parts generalizing fuel names with
  | nil =>
      obtain ⟨fuel, rfl⟩ := Nat.exists_eq_add_one_of_ne_zero (Nat.ne_of_gt enough)
      exact eventsFrom_data plain fuel names
  | cons p parts ih =>
      obtain ⟨fuel, rfl⟩ := Nat.exists_eq_add_one_of_ne_zero (by omega : fuel ≠ 0)
      rw [List.map_cons, List.foldlM_cons] at nested
      obtain ⟨next, fits, nested⟩ := Option.bind_eq_some_iff.1 nested
      have rest := ih nested (Nat.lt_of_succ_lt_succ enough)
      have text : (p :: parts).flatMap Part.text ++ last =
          p.data ++ '<' :: (p.markup.text ++ (parts.flatMap Part.text ++ last)) := by
        simp [Part.text]
      rw [text, eventsFrom_markup p.plain (p.markup.read _) fits, rest]
      simp [Part.events]

theorem length_le_flatMap_part (parts : List Part) :
    parts.length ≤ (parts.flatMap Part.text).length := by
  induction parts with
  | nil => simp
  | cons p parts ih =>
      simp only [List.flatMap_cons, List.length_append, List.length_cons, Part.text]
      omega

namespace Document

variable (d : Document)

theorem body_begins : ∃ r, d.body = d.first.data ++ '<' :: r :=
  ⟨d.first.markup.text ++ (d.others.flatMap Part.text ++ d.last), by
    simp [body, parts, Part.text]⟩

theorem afterMark_text : afterMark d.text = d.body := by
  unfold text
  split
  · rfl
  · obtain ⟨r, begins⟩ := d.body_begins
    have noMark : d.body.head? ≠ some '\ufeff' := by
      rw [begins]
      cases blanks : d.first.data with
      | nil => simp
      | cons c cs =>
          have blank := d.blank c (by simp [blanks])
          have := ne_of_isMarkupBlank (d := '\ufeff') blank rfl
          simpa using this
    unfold afterMark
    split
    · rename_i same
      simp [same] at noMark
    · rfl

/-- The events of a document are those of its parts, one after another. -/
theorem events_text : events d.text = ⟨d.parts.flatMap Part.events ++ dataEvents d.last, true⟩ := by
  rw [events_eq, afterMark_text]
  have enough := length_le_flatMap_part d.parts
  refine eventsFrom_parts d.plain d.nested (Nat.lt_succ_of_le (Nat.le_trans enough ?_))
  rw [body, List.length_append]
  exact Nat.le_add_right _ _

theorem no_brace : (Text.trimStart d.text).head? ≠ some '\x7b' := by
  obtain ⟨r, begins⟩ := d.body_begins
  unfold text
  split
  · simp [Text.trimStart, Text.isBlank]
  · rw [begins, Text.trimStart_append d.blank rfl]
    simp

end Document

end SuiteMetrics.Xml
