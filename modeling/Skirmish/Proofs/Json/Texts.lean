import Mathlib
import Skirmish.Json
import Skirmish.Proofs.Decimal.Literals
import Skirmish.Proofs.Records

/-!
# Texts of values

A value is read as it was written, in either shape:

* `readString?_writeText` — strings;
* `Value.ofText?_write` — values;
* `Value.fields?_record` — the fields of a record.
-/

/-! ## Strings are read as they were written

A character is written as itself or as an escape, and reading makes one piece of either. Pieces are
joined again to characters, where two units may make one; but no unit that is written is half of a
surrogate pair.

* `escape` — what is written for a character;
* `read?_escape` — one character is read as the piece that stands for it;
* `join?_map_ofChar` — pieces that stand for characters are joined to them;
* `readString?_writeText` — a whole string, up to the quote at its end.
-/

namespace Skirmish.Json

/-! ### Writing -/

def escape (c : Char) : List Char :=
  (writeChar "" c).toList

theorem toList_writeChar (out : String) (c : Char) :
    (writeChar out c).toList = out.toList ++ escape c := by
  unfold escape writeChar
  -- a quote, a backslash, a control character or anything else
  split
  · simp
  · split
    · simp
    · split <;> simp

theorem toList_foldl_writeChar (out : String) (cs : List Char) :
    (cs.foldl writeChar out).toList = out.toList ++ cs.flatMap escape := by
  induction cs generalizing out with
  | nil => simp
  | cons c cs ih => rw [List.foldl_cons, ih, toList_writeChar, List.flatMap_cons, List.append_assoc]

theorem toList_writeText (out text : String) :
    (writeText out text).toList = out.toList ++ '"' :: (text.toList.flatMap escape ++ ['"']) := by
  rw [writeText, String.toList_push, toList_foldl_writeChar, String.toList_push]
  simp

/-! ### Reading -/

namespace Piece

/-- Whether a character is written as a unit. -/
def isUnit (c : Char) : Bool :=
  c.toNat < 32 && !(c = '\x08' || c = '\t' || c = '\n' || c = '\x0c' || c = '\r')

/-- The piece that stands for a character. -/
def ofChar (c : Char) : Piece :=
  if isUnit c then unit c.toNat else char c

/-- The escapes of the control characters are read as they should. -/
theorem read?_control : ∀ n < 32, ∀ before rest,
    read? before ((writeChar "" (Char.ofNat n)).toList ++ rest) =
      read? (ofChar (Char.ofNat n) :: before) rest := by
  intro n hn before rest
  -- each of the thirty-two has an escape of its own, so they are taken one by one
  interval_cases n <;> rfl

theorem read?_escape (before : List Piece) (c : Char) (rest : List Char) :
    read? before (escape c ++ rest) = read? (ofChar c :: before) rest := by
  by_cases hcontrol : c.toNat < 32
  · have h := read?_control c.toNat hcontrol before rest
    rwa [Char.ofNat_toNat] at h
  -- above the control characters a piece is the character itself
  have hpiece : ofChar c = char c := by
    rw [ofChar, if_neg]
    simp [isUnit, hcontrol]
  rw [hpiece, escape, writeChar]
  by_cases hquote : c = '"'
  · subst hquote
    rfl
  by_cases hbackslash : c = '\\'
  · subst hbackslash
    rfl
  -- anything else is written as it is
  rw [if_neg hquote, if_neg hbackslash, if_neg hcontrol, String.toList_push, String.toList_empty,
    List.nil_append, List.singleton_append]
  rw [read?, if_neg hcontrol]
  · exact hquote
  · exact fun _ _ _ _ _ h => absurd h hbackslash
  · exact fun _ _ h => absurd h hbackslash

/-- **All characters** up to the quote at the end. -/
theorem read?_flatMap_escape (before : List Piece) (cs rest : List Char) :
    read? before (cs.flatMap escape ++ '"' :: rest) =
        some (before.reverse ++ cs.map ofChar, rest) := by
  -- on the characters, which go in front of the pieces already read
  induction cs generalizing before with
  | nil => simp [read?]
  | cons c cs ih =>
    rw [List.flatMap_cons, List.append_assoc, read?_escape, ih]
    simp

theorem join?_map_ofChar (start : String) (cs : List Char) :
    join? start (cs.map ofChar) = some (start ++ String.ofList cs) := by
  -- on the characters; pieces are joined one at a time, for no unit here is half of a pair
  induction cs generalizing start with
  | nil => simp [join?]
  | cons c cs ih =>
    have hnext : join? start ((c :: cs).map ofChar) = join? (start.push c) (cs.map ofChar) := by
      rw [List.map_cons]
      by_cases hc : isUnit c = true
      · -- a unit by itself, even if another one follows
        have hsmall : c.toNat < 32 := by
          simp [isUnit] at hc
          exact hc.1
        have hhigh : isHigh c.toNat = false := by
          simp [isHigh]
          omega
        have hlow : isLow c.toNat = false := by
          simp [isLow]
          omega
        rw [ofChar, if_pos hc]
        rcases cs.map ofChar with _ | ⟨_ | _, rest⟩ <;>
          simp [join?, hhigh, hlow]
      · rw [ofChar, if_neg hc, join?]
    rw [hnext, ih]
    exact congrArg some (String.toList_inj.mp (by simp))

end Piece

theorem readString?_writeText (text : String) (rest : List Char) :
    readString? (text.toList.flatMap escape ++ '"' :: rest) = some (some text, rest) := by
  rw [readString?, Piece.read?_flatMap_escape]
  simp [Piece.join?_map_ofChar]

/-! ## Values are read as they were written

Written in either shape, a value is read again, unless it has a number that is no number or a string
without content.

* `Value.chars` — the text of a value, as a list of characters;
* `toList_write` — it is what is written;
* `Value.Standard` — values that have a text;
* `Value.Standard.reads` — such a value is read from the start of any text that begins with it;
* `ofText?_write` — and from a text that is nothing else.

The reader looks one sign ahead. A value is over where its last sign is, except for a number, which
goes on as long as there are signs for it. In a text, what follows a value is a comma, a bracket or
the end of a line, and none of them belongs to a number.
-/

namespace Value

/-! ### The text of a value -/

mutual

/-- **The text of a value.** -/
def chars (shape : Shape) (depth : Nat) : Value → List Char
  | null => ['n', 'u', 'l', 'l']
  | bool b => if b then ['t', 'r', 'u', 'e'] else ['f', 'a', 'l', 's', 'e']
  | number literal => literal
  | string text => '"' :: ((text.getD "").toList.flatMap escape ++ ['"'])
  | array [] => ['[', ']']
  | array (item :: items) =>
    '[' :: ((shape.lead (depth + 1)).toList ++ (item.chars shape (depth + 1) ++
      (itemsChars shape (depth + 1) items ++ ((shape.lead depth).toList ++ [']']))))
  | object [] => ['\x7b', '\x7d']
  | object (member :: members) =>
    '\x7b' :: ((shape.lead (depth + 1)).toList ++ (memberChars shape (depth + 1) member ++
      (membersChars shape (depth + 1) members ++ ((shape.lead depth).toList ++ ['\x7d']))))

def itemsChars (shape : Shape) (depth : Nat) : List Value → List Char
  | [] => []
  | item :: items =>
    ',' :: ((shape.lead depth).toList ++ (item.chars shape depth ++ itemsChars shape depth items))

def memberChars (shape : Shape) (depth : Nat) : Option String × Value → List Char
  | (name, value) =>
    '"' :: ((name.getD "").toList.flatMap escape ++
      ('"' :: (shape.colon.toList ++ value.chars shape depth)))

def membersChars (shape : Shape) (depth : Nat) : List (Option String × Value) → List Char
  | [] => []
  | member :: members =>
    ',' :: ((shape.lead depth).toList ++
      (memberChars shape depth member ++ membersChars shape depth members))

end

mutual

theorem toList_write (shape : Shape) (depth : Nat) (out : String) (v : Value) :
    (v.write shape depth out).toList = out.toList ++ v.chars shape depth := by
  -- along the value, with the three kinds of parts in the same recursion
  match v with
  | null => simp [write, chars]
  | bool b => cases b <;> simp [write, chars]
  | number literal => simp [write, chars]
  | string text => simp [write, chars, toList_writeText]
  | array [] => simp [write, chars]
  | array (item :: items) =>
    simp [write, chars, toList_write shape (depth + 1) _ item,
      toList_writeItems shape (depth + 1) _ items]
  | object [] => simp [write, chars]
  | object (member :: members) =>
    simp [write, chars, toList_writeMember shape (depth + 1) _ member,
      toList_writeMembers shape (depth + 1) _ members]

theorem toList_writeItems (shape : Shape) (depth : Nat) (out : String) (items : List Value) :
    (writeItems shape depth out items).toList = out.toList ++ itemsChars shape depth items := by
  match items with
  | [] => simp [writeItems, itemsChars]
  | item :: items =>
    simp [writeItems, itemsChars, toList_write shape depth _ item,
      toList_writeItems shape depth _ items]

theorem toList_writeMember (shape : Shape) (depth : Nat) (out : String)
    (member : Option String × Value) :
    (writeMember shape depth out member).toList = out.toList ++ memberChars shape depth member := by
  match member with
  | (name, value) =>
    simp [writeMember, memberChars, toList_writeText, toList_write shape depth _ value]

theorem toList_writeMembers (shape : Shape) (depth : Nat) (out : String)
    (members : List (Option String × Value)) :
    (writeMembers shape depth out members).toList =
        out.toList ++ membersChars shape depth members := by
  match members with
  | [] => simp [writeMembers, membersChars]
  | member :: members =>
    simp [writeMembers, membersChars, toList_writeMember shape depth _ member,
      toList_writeMembers shape depth _ members]

end

/-- **Values that have a text.** Numbers are numbers, and strings have a content. -/
inductive Standard : Value → Prop
  | null : Standard null
  | bool (b : Bool) : Standard (bool b)
  | number {n : Numeral} (h : n.Proper) : Standard (number n.literal)
  | text (s : String) : Standard (text s)
  | array {items : List Value} (h : ∀ v ∈ items, Standard v) : Standard (array items)
  | object {members : List (Option String × Value)} (hname : ∀ m ∈ members, m.1.isSome = true)
      (h : ∀ m ∈ members, Standard m.2) : Standard (object members)

/-! ### Signs between values -/

/-- No number goes on here. -/
def Stops (rest : List Char) : Prop :=
  ∀ c ∈ rest.head?, isNumberChar c = false

variable {v : Value} {shape : Shape} {depth n : Nat} {blanks rest cs : List Char} {c : Char}

theorem toList_lead_pretty (depth : Nat) :
    ((Shape.pretty).lead depth).toList = '\n' :: List.replicate (2 * depth) ' ' := by
  have hpushn : ∀ k : Nat, ∀ s : String, (s.pushn ' ' k).toList =
      s.toList ++ List.replicate k ' ' := by
    intro k s
    rw [String.pushn_eq_repeat_push]
    -- on the number of blanks, which are pushed one by one
    induction k with
    | zero => simp [Nat.repeat]
    | succ k ih => rw [Nat.repeat, String.toList_push, ih, List.replicate_succ', List.append_assoc]
  exact hpushn _ _

theorem isBlank_of_mem_lead (h : c ∈ (shape.lead depth).toList) : isBlank c = true := by
  cases shape with
  | compact => exact absurd h List.not_mem_nil
  | pretty =>
    rw [toList_lead_pretty] at h
    obtain rfl | h := List.mem_cons.mp h
    · rfl
    · obtain rfl := List.eq_of_mem_replicate h
      rfl

/-- What follows an item or a member ends a number: a comma, the end of a line or a bracket. -/
theorem stops_lead (hc : isNumberChar c = false) :
    Stops ((shape.lead depth).toList ++ c :: rest) := by
  cases shape with
  | compact =>
    rintro _ ⟨⟩
    exact hc
  | pretty =>
    rw [toList_lead_pretty]
    rintro _ ⟨⟩
    rfl

theorem skipBlanks_append (hblanks : ∀ c ∈ blanks, isBlank c = true)
    (hcs : ∀ c ∈ cs.head?, isBlank c = false) : skipBlanks (blanks ++ cs) = cs := by
  rw [skipBlanks, List.dropWhile_append_of_pos hblanks]
  cases cs with
  | nil => rfl
  | cons c cs =>
    have hc : isBlank c = false := hcs c rfl
    simp [hc]

theorem skipBlanks_lead (hc : isBlank c = false) :
    skipBlanks ((shape.lead depth).toList ++ c :: cs) = c :: cs :=
  skipBlanks_append (fun _ h => isBlank_of_mem_lead h) (by rintro _ ⟨⟩; exact hc)

/-! ### Reading a value -/

/-- **The value is read** from any text that begins with its own. -/
def Reads (v : Value) : Prop :=
  ∀ shape depth n blanks rest, (∀ c ∈ blanks, isBlank c = true) → Stops rest →
    2 * (v.chars shape depth).length ≤ n →
    read? n (blanks ++ (v.chars shape depth ++ rest)) = some (v, rest)

/-- The text of a value begins with a sign that is no blank and closes no array. -/
theorem Standard.exists_chars_eq_cons (h : Standard v) (shape : Shape) (depth : Nat) :
    ∃ c cs, v.chars shape depth = c :: cs ∧ isBlank c = false ∧ c ≠ ']' := by
  cases h with
  | null => exact ⟨_, _, rfl, rfl, by decide⟩
  | bool b => cases b <;> exact ⟨_, _, rfl, rfl, by decide⟩
  | @number n h =>
    change ∃ c cs, n.literal = c :: cs ∧ _
    have hchars := Numeral.isNumberChar_of_mem_literal h
    cases hliteral : n.literal with
    | nil => exact absurd hliteral (Numeral.literal_ne_nil h)
    | cons c cs =>
      have hc := hchars c (hliteral ▸ List.mem_cons_self)
      refine ⟨c, cs, rfl, ?_, ?_⟩
      · by_contra hblank
        simp only [isBlank, Bool.not_eq_false, Bool.or_eq_true, decide_eq_true_eq] at hblank
        obtain ((rfl | rfl) | rfl) | rfl := hblank <;> cases hc
      · rintro rfl
        cases hc
  | text s => exact ⟨_, _, rfl, rfl, by decide⟩
  | @array items => cases items <;> exact ⟨_, _, rfl, rfl, by decide⟩
  | @object members => cases members <;> exact ⟨_, _, rfl, rfl, by decide⟩

theorem read?_eq_readSimple? {text : List Char} (htext : skipBlanks text = c :: cs)
    (harray : c ≠ '[') (hobject : c ≠ '\x7b') : read? (n + 1) text = readSimple? (c :: cs) := by
  rw [read?, htext]
  split
  · next h => exact absurd (List.cons.inj h).1 harray
  · next h => exact absurd (List.cons.inj h).1 hobject
  · rfl

theorem reads_of_readSimple? (hv : ∀ shape depth, v.chars shape depth = c :: cs)
    (hblank : isBlank c = false) (harray : c ≠ '[') (hobject : c ≠ '\x7b')
    (h : ∀ rest, Stops rest → readSimple? (c :: (cs ++ rest)) = some (v, rest)) : Reads v := by
  intro shape depth n blanks rest hblanks hrest hn
  rw [hv] at hn ⊢
  obtain ⟨n, rfl⟩ : ∃ k, n = k + 1 := ⟨n - 1, by rw [List.length_cons] at hn; omega⟩
  have hskip : skipBlanks (blanks ++ (c :: cs ++ rest)) = c :: (cs ++ rest) :=
    skipBlanks_append hblanks (by rintro _ ⟨⟩; exact hblank)
  rw [read?_eq_readSimple? hskip harray hobject]
  exact h rest hrest

theorem reads_null : Reads null :=
  reads_of_readSimple? (fun _ _ => rfl) rfl (by decide) (by decide)
    fun rest _ => by simp [readSimple?, afterWord?]

theorem reads_bool (b : Bool) : Reads (bool b) := by
  cases b <;>
  exact reads_of_readSimple? (fun _ _ => rfl) rfl (by decide) (by decide)
    fun rest _ => by simp [readSimple?, afterWord?]

theorem reads_text (s : String) : Reads (text s) :=
  reads_of_readSimple? (fun _ _ => rfl) rfl (by decide) (by decide)
    fun rest _ => by simp [readSimple?, readString?_writeText, text]

theorem reads_number {m : Numeral} (h : m.Proper) : Reads (number m.literal) := by
  have hproper := Numeral.ofLiteral?_literal h
  have hchars := Numeral.isNumberChar_of_mem_literal h
  obtain ⟨c, cs, hcons, hblank, -⟩ := (Standard.number h).exists_chars_eq_cons .compact 0
  change m.literal = c :: cs at hcons
  have hc : isNumberChar c = true := hchars c (hcons ▸ List.mem_cons_self)
  -- a sign of a number is none of the signs that other values begin with
  have hne : ∀ {d : Char}, isNumberChar d = false → c ≠ d := by
    rintro d hd rfl
    rw [hc] at hd
    cases hd
  refine reads_of_readSimple? (fun _ _ => hcons) hblank (hne rfl) (hne rfl) ?_
  intro rest hrest
  -- no other value begins with this sign
  have hsimple : readSimple? (c :: (cs ++ rest)) = readNumber? (c :: (cs ++ rest)) := by
    unfold readSimple?
    split
    · next h => exact absurd (List.cons.inj h).1 (hne rfl)
    · next h => exact absurd (List.cons.inj h).1 (hne rfl)
    · next h => exact absurd (List.cons.inj h).1 (hne rfl)
    · next h => exact absurd (List.cons.inj h).1 (hne rfl)
    · rfl
  -- the reader takes the literal and stops, for no number goes on behind it
  have htake : (m.literal ++ rest).takeWhile isNumberChar = m.literal ∧
      (m.literal ++ rest).dropWhile isNumberChar = rest := by
    rw [List.takeWhile_append_of_pos hchars, List.dropWhile_append_of_pos hchars]
    cases rest with
    | nil => simp
    | cons d rest =>
      have hd : isNumberChar d = false := hrest d rfl
      simp [hd]
  rw [hsimple, ← List.cons_append, ← hcons, readNumber?, htake.1, htake.2, hproper]
  rfl

/-! ### Items and members -/

theorem stops_itemsChars (items : List Value) :
    Stops (itemsChars shape (depth + 1) items ++ ((shape.lead depth).toList ++ ']' :: rest)) := by
  cases items with
  | nil => exact stops_lead rfl
  | cons item items =>
    rintro _ ⟨⟩
    rfl

theorem stops_membersChars (members : List (Option String × Value)) :
    Stops (membersChars shape (depth + 1) members ++
        ((shape.lead depth).toList ++ '\x7d' :: rest)) := by
  cases members with
  | nil => exact stops_lead rfl
  | cons member members =>
    rintro _ ⟨⟩
    rfl

/-- **Items are read** up to the end of the array. -/
theorem readItems?_chars (shape : Shape) (depth : Nat) (rest : List Char) {items : List Value}
    (hitems : ∀ v ∈ items, Reads v) {item : Value} (hitem : Reads item) (before : List Value)
    (hblanks : ∀ c ∈ blanks, isBlank c = true)
    (hn : 2 * (item.chars shape (depth + 1) ++ itemsChars shape (depth + 1) items).length + 1 ≤ n) :
    readItems? n before (blanks ++ (item.chars shape (depth + 1) ++
        (itemsChars shape (depth + 1) items ++ ((shape.lead depth).toList ++ ']' :: rest)))) =
      some (.array (before.reverse ++ item :: items), rest) := by
  -- the fuel is enough for the text that is left, with one more for this call
  induction items generalizing item before blanks n with
  | nil =>
    -- a bracket follows
    obtain ⟨n, rfl⟩ : ∃ k, n = k + 1 := ⟨n - 1, by omega⟩
    rw [List.length_append] at hn
    rw [readItems?, hitem shape (depth + 1) n blanks _ hblanks (stops_itemsChars []) (by omega)]
    simp [itemsChars, skipBlanks_lead (show isBlank ']' = false from rfl)]
  | cons next items ih =>
    -- a comma follows, and a lead
    obtain ⟨n, rfl⟩ : ∃ k, n = k + 1 := ⟨n - 1, by omega⟩
    have hlength : (itemsChars shape (depth + 1) (next :: items)).length =
        (shape.lead (depth + 1)).toList.length + 1 +
          (next.chars shape (depth + 1) ++ itemsChars shape (depth + 1) items).length := by
      simp [itemsChars]
      omega
    rw [List.length_append, hlength] at hn
    rw [readItems?, hitem shape (depth + 1) n blanks _ hblanks
      (stops_itemsChars (next :: items)) (by omega)]
    have hlead : ∀ c ∈ (shape.lead (depth + 1)).toList, isBlank c = true :=
      fun _ hc => isBlank_of_mem_lead hc
    have hrest :=
      ih (fun v hv => hitems v (List.mem_cons_of_mem _ hv)) (hitems next List.mem_cons_self)
      (item :: before) hlead (n := n) (by omega)
    -- what is left begins with the comma before the next item
    have hcomma : skipBlanks (itemsChars shape (depth + 1) (next :: items) ++
        ((shape.lead depth).toList ++ ']' :: rest)) =
      ',' :: ((shape.lead (depth + 1)).toList ++ (next.chars shape (depth + 1) ++
        (itemsChars shape (depth + 1) items ++ ((shape.lead depth).toList ++ ']' :: rest)))) := by
      simp [itemsChars, skipBlanks, isBlank]
    simp only [hcomma]
    rw [hrest]
    simp

def gap : Shape → List Char
  | .compact => []
  | .pretty => [' ']

theorem readName?_memberChars (name : String) (value : Value)
    (hblanks : ∀ c ∈ blanks, isBlank c = true) :
    readName? (blanks ++ (memberChars shape depth (some name, value) ++ rest)) =
      some (some name, gap shape ++ (value.chars shape depth ++ rest)) := by
  have hquote : skipBlanks (blanks ++ (memberChars shape depth (some name, value) ++ rest)) =
      '"' :: (name.toList.flatMap escape ++ '"' :: (shape.colon.toList ++
        (value.chars shape depth ++ rest))) := by
    rw [skipBlanks_append hblanks (by rintro _ ⟨⟩; rfl)]
    simp [memberChars]
  unfold readName?
  rw [hquote]
  simp only [readString?_writeText, Option.bind_eq_bind, Option.bind_some]
  cases shape <;> rfl

/-- A member's value is read where its name ends. -/
theorem read?_gap {value : Value} (h : Reads value) (hrest : Stops rest)
    (hn : 2 * (value.chars shape depth).length ≤ n) :
    read? n (gap shape ++ (value.chars shape depth ++ rest)) = some (value, rest) := by
  refine h shape depth n (gap shape) rest ?_ hrest hn
  cases shape <;> simp [gap, isBlank]

theorem length_chars_le (shape : Shape) (depth : Nat) (name : Option String) (value : Value) :
    (value.chars shape depth).length ≤ (memberChars shape depth (name, value)).length := by
  simp [memberChars]
  omega

/-- **Members are read** up to the end of the object. -/
theorem readMembers?_chars (shape : Shape) (depth : Nat) (rest : List Char)
    {members : List (Option String × Value)}
    (hnames : ∀ m ∈ members, m.1.isSome = true) (hmembers : ∀ m ∈ members, Reads m.2)
    {name : Option String} (hname : name.isSome = true) {value : Value} (hvalue : Reads value)
    (before : List (Option String × Value)) (hblanks : ∀ c ∈ blanks, isBlank c = true)
    (hn : 2 * (memberChars shape (depth + 1) (name, value) ++
      membersChars shape (depth + 1) members).length + 1 ≤ n) :
    readMembers? n before (blanks ++ (memberChars shape (depth + 1) (name, value) ++
        (membersChars shape (depth + 1) members ++
          ((shape.lead depth).toList ++ '\x7d' :: rest)))) =
      some (.object (before.reverse ++ (name, value) :: members), rest) := by
  -- as for items, with a name in front of each value
  induction members generalizing name value before blanks n with
  | nil =>
    obtain ⟨n, rfl⟩ : ∃ k, n = k + 1 := ⟨n - 1, by omega⟩
    obtain ⟨name, rfl⟩ := Option.isSome_iff_exists.mp hname
    have hlength := length_chars_le shape (depth + 1) (some name) value
    rw [List.length_append] at hn
    rw [readMembers?, readName?_memberChars name value hblanks]
    simp only
    rw [read?_gap hvalue (stops_membersChars []) (by omega)]
    simp [membersChars, skipBlanks_lead (show isBlank '\x7d' = false from rfl)]
  | cons next members ih =>
    obtain ⟨n, rfl⟩ : ∃ k, n = k + 1 := ⟨n - 1, by omega⟩
    obtain ⟨name, rfl⟩ := Option.isSome_iff_exists.mp hname
    obtain ⟨name', value'⟩ := next
    have hlength := length_chars_le shape (depth + 1) (some name) value
    have hmore : (membersChars shape (depth + 1) ((name', value') :: members)).length =
        (shape.lead (depth + 1)).toList.length + 1 +
          (memberChars shape (depth + 1) (name', value') ++
            membersChars shape (depth + 1) members).length := by
      simp [membersChars]
      omega
    rw [List.length_append, hmore] at hn
    rw [readMembers?, readName?_memberChars name value hblanks]
    simp only
    rw [read?_gap hvalue (stops_membersChars ((name', value') :: members)) (by omega)]
    have hname' : name'.isSome = true := hnames _ List.mem_cons_self
    have hvalue' : Reads value' := hmembers _ List.mem_cons_self
    have hlead : ∀ c ∈ (shape.lead (depth + 1)).toList, isBlank c = true :=
      fun _ hc => isBlank_of_mem_lead hc
    have hrest := ih (fun m hm => hnames m (List.mem_cons_of_mem _ hm))
      (fun m hm => hmembers m (List.mem_cons_of_mem _ hm)) hname' hvalue'
      ((some name, value) :: before) hlead (n := n) (by omega)
    -- what is left begins with the comma before the next member
    have hcomma : skipBlanks (membersChars shape (depth + 1) ((name', value') :: members) ++
        ((shape.lead depth).toList ++ '\x7d' :: rest)) =
      ',' :: ((shape.lead (depth + 1)).toList ++ (memberChars shape (depth + 1) (name', value') ++
        (membersChars shape (depth + 1) members ++
          ((shape.lead depth).toList ++ '\x7d' :: rest)))) := by
      simp [membersChars, skipBlanks, isBlank]
    simp only [hcomma]
    rw [hrest]
    simp

theorem reads_array {items : List Value} (hstandard : ∀ v ∈ items, Standard v)
    (hreads : ∀ v ∈ items, Reads v) : Reads (array items) := by
  intro shape depth n blanks rest hblanks hrest hn
  cases items with
  | nil =>
    obtain ⟨n, rfl⟩ : ∃ k, n = k + 1 := ⟨n - 1, by simp [chars] at hn; omega⟩
    rw [read?, skipBlanks_append hblanks (by rintro _ ⟨⟩; rfl)]
    rfl
  | cons item items =>
    obtain ⟨n, rfl⟩ : ∃ k, n = k + 1 := ⟨n - 1, by simp [chars] at hn; omega⟩
    have hlead : ∀ c ∈ (shape.lead (depth + 1)).toList, isBlank c = true :=
      fun _ hc => isBlank_of_mem_lead hc
    obtain ⟨c, cs, hcons, hblank, hclose⟩ :=
      (hstandard item List.mem_cons_self).exists_chars_eq_cons shape (depth + 1)
    have hread := readItems?_chars shape depth rest
      (fun v hv => hreads v (List.mem_cons_of_mem _ hv))
      (hreads item List.mem_cons_self) [] hlead (n := n) (by simp [chars] at hn ⊢; omega)
    have htext : (Value.array (item :: items)).chars shape depth ++ rest =
        '[' :: ((shape.lead (depth + 1)).toList ++ (item.chars shape (depth + 1) ++
          (itemsChars shape (depth + 1) items ++ ((shape.lead depth).toList ++ ']' :: rest)))) := by
      simp [chars]
    rw [htext, read?, skipBlanks_append hblanks (by rintro _ ⟨⟩; rfl)]
    simp only
    -- an item begins, so the array is not empty
    rw [hcons, List.cons_append, skipBlanks_lead hblank]
    split
    · next h => exact absurd (List.cons.inj h).1 hclose
    · rw [hcons, List.cons_append] at hread
      exact hread

theorem reads_object {members : List (Option String × Value)}
    (hnames : ∀ m ∈ members, m.1.isSome = true)
    (hreads : ∀ m ∈ members, Reads m.2) : Reads (object members) := by
  intro shape depth n blanks rest hblanks hrest hn
  cases members with
  | nil =>
    obtain ⟨n, rfl⟩ : ∃ k, n = k + 1 := ⟨n - 1, by simp [chars] at hn; omega⟩
    rw [read?, skipBlanks_append hblanks (by rintro _ ⟨⟩; rfl)]
    rfl
  | cons member members =>
    obtain ⟨n, rfl⟩ : ∃ k, n = k + 1 := ⟨n - 1, by simp [chars] at hn; omega⟩
    obtain ⟨name, value⟩ := member
    have hlead : ∀ c ∈ (shape.lead (depth + 1)).toList, isBlank c = true :=
      fun _ hc => isBlank_of_mem_lead hc
    have hname : name.isSome = true := hnames _ List.mem_cons_self
    have hvalue : Reads value := hreads _ List.mem_cons_self
    have hread := readMembers?_chars shape depth rest
      (fun m hm => hnames m (List.mem_cons_of_mem _ hm))
      (fun m hm => hreads m (List.mem_cons_of_mem _ hm)) hname hvalue [] hlead (n := n)
      (by simp [chars] at hn ⊢; omega)
    have htext : (Value.object ((name, value) :: members)).chars shape depth ++ rest =
        '\x7b' :: ((shape.lead (depth + 1)).toList ++
          (memberChars shape (depth + 1) (name, value) ++
            (membersChars shape (depth + 1) members ++
              ((shape.lead depth).toList ++ '\x7d' :: rest)))) := by
      simp [chars]
    rw [htext, read?, skipBlanks_append hblanks (by rintro _ ⟨⟩; rfl)]
    simp only
    rw [memberChars, List.cons_append, skipBlanks_lead rfl]
    exact hread

theorem Standard.reads (h : Standard v) : Reads v := by
  -- on the value; parts are read by induction, with any fuel that is twice their length
  induction h with
  | null => exact reads_null
  | bool b => exact reads_bool b
  | number h => exact reads_number h
  | text s => exact reads_text s
  | array hstandard ih => exact reads_array hstandard ih
  | object hnames _ ih => exact reads_object hnames ih

theorem ofText?_write (h : Standard v) (shape : Shape) : ofText? (v.write shape 0 "") = some v := by
  have htext : (v.write shape 0 "").toList = v.chars shape 0 := by
    rw [toList_write]
    rfl
  -- the text as a whole has nothing before it and nothing behind it
  have hread := h.reads shape 0 (2 * (v.chars shape 0).length + 2) [] [] (by simp) (by simp [Stops])
    (by omega)
  rw [List.append_nil, List.nil_append] at hread
  unfold ofText?
  simp only [htext, hread]
  rfl

end Value

end Skirmish.Json

/-! ## The fields of a record

A record that was written as an object has each of its fields, if no name occurs twice.

* `fields?_record` — the fields of a record by their names;
* `standard_record` — a record has a text if its fields have one.
-/

namespace Skirmish.Json.Value

theorem only?_eq {members : List (String × Value)} (hnames : (members.map Prod.fst).Nodup)
    {m : String × Value} (hm : m ∈ members) :
    Record.only? (members.map fun m => (some m.1, m.2)) (some m.1) = some (some m.2) := by
  have hfilter : (members.map fun m => (some m.1, m.2)).filter (fun e => e.1 = some m.1) =
      [(some m.1, m.2)] := by
    -- on the members up to the one looked for
    induction members with
    | nil => exact absurd hm List.not_mem_nil
    | cons first members ih =>
      obtain ⟨hfirst, hrest⟩ := List.nodup_cons.mp hnames
      obtain rfl | hm := List.mem_cons.mp hm
      · -- no other member has this name
        have hnone : (members.map fun m => ((some m.1 : Option String), m.2)).filter
            (fun e => e.1 = some m.1) = [] := by
          refine List.filter_eq_nil_iff.mpr ?_
          intro e he
          obtain ⟨other, hother, rfl⟩ := List.mem_map.mp he
          intro heq
          have hname : other.1 = m.1 := Option.some.inj (of_decide_eq_true heq)
          exact hfirst (hname ▸ List.mem_map_of_mem hother)
        rw [List.map_cons, List.filter_cons_of_pos (by simp), hnone]
      · have hne : first.1 ≠ m.1 := fun heq => hfirst (heq ▸ List.mem_map_of_mem hm)
        rw [List.map_cons, List.filter_cons_of_neg (by simpa using hne), ih hrest hm]
  rw [Record.only?, hfilter]

theorem fields?_record {members : List (String × Value)} (hnames : (members.map Prod.fst).Nodup) :
    (record members).fields? (members.map Prod.fst) = some (members.map fun m => some m.2) := by
  have hall : (members.map fun m => ((some m.1 : Option String), m.2)).all (·.1.isSome) = true := by
    simp
  rw [record, fields?, if_pos hall, Record.named?, List.map_map, List.mapM_map]
  exact mapM_eq_some_map fun m hm => only?_eq hnames hm

theorem standard_record {members : List (String × Value)} (h : ∀ m ∈ members, Standard m.2) :
    Standard (record members) := by
  refine .object ?_ ?_
  · intro m hm
    obtain ⟨_, _, rfl⟩ := List.mem_map.mp hm
    rfl
  · intro _ hm
    obtain ⟨m, hmember, rfl⟩ := List.mem_map.mp hm
    exact h m hmember

end Skirmish.Json.Value
