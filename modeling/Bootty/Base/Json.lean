import Bootty.Base.Text

/-!
# JSON

Values, the text of a value with the layout of a pretty printer, and a parser. Objects keep the
order of their fields; a repeated field keeps its first place and its last value. What a number is
and how it is written are parameters. The parser has no limit of its recursion. It stands, with the
values and the text, for the crate `serde_json`.
-/

namespace Bootty.Base

/-- A JSON value whose numbers are of some type. -/
inductive Json (N : Type) where
  | null
  | bool (value : Bool)
  | number (value : N)
  | string (value : String)
  | array (items : List (Json N))
  | object (fields : List (String × Json N))

namespace Json

variable {N : Type}

/-- The cases of a value, with the items and fields inside. -/
@[elab_as_elim]
theorem inductionOn {P : Json N → Prop} (v : Json N) (null : P .null)
    (bool : ∀ value, P (.bool value)) (number : ∀ value, P (.number value))
    (string : ∀ value, P (.string value))
    (array : ∀ items, (∀ item ∈ items, P item) → P (.array items))
    (object : ∀ fields, (∀ field ∈ fields, P field.2) → P (.object fields)) : P v := by
  have hcons : ∀ (head : Json N) (tail : List (Json N)), P head → (∀ item ∈ tail, P item) →
      ∀ item ∈ head :: tail, P item := by
    intro head tail hhead htail item hitem
    cases hitem with
    | head => exact hhead
    | tail _ hmem => exact htail item hmem
  have hfield : ∀ (head : String × Json N) (tail : List (String × Json N)), P head.2 →
      (∀ field ∈ tail, P field.2) → ∀ field ∈ head :: tail, P field.2 := by
    intro head tail hhead htail field hfield
    cases hfield with
    | head => exact hhead
    | tail _ hmem => exact htail field hmem
  exact @Json.rec N P (fun items ↦ ∀ item ∈ items, P item)
    (fun fields ↦ ∀ field ∈ fields, P field.2) (fun field ↦ P field.2) null bool number string
    array object (fun _ h ↦ nomatch h) hcons (fun _ h ↦ nomatch h) hfield (fun _ _ ih ↦ ih) v

/-! ### Equality and well-formedness -/

/-- The keys of an object are different from each other. -/
def fieldsUnique (fields : List (String × Json N)) : Prop := (fields.map Prod.fst).Nodup

mutual

/-- Every object inside has different keys. -/
def WellFormed : Json N → Prop
  | .array items => WellFormedItems items
  | .object fields => fieldsUnique fields ∧ WellFormedFields fields
  | _ => True

/-- Every item is well formed. -/
def WellFormedItems : List (Json N) → Prop
  | [] => True
  | item :: rest => item.WellFormed ∧ WellFormedItems rest

/-- Every value is well formed. -/
def WellFormedFields : List (String × Json N) → Prop
  | [] => True
  | (_, value) :: rest => value.WellFormed ∧ WellFormedFields rest

end

/-- Items one by one. -/
theorem wellFormedItems_iff {items : List (Json N)} :
    WellFormedItems items ↔ ∀ item ∈ items, item.WellFormed := by
  induction items with
  | nil => simp [WellFormedItems]
  | cons item rest ih => simp [WellFormedItems, ih]

variable {fields : List (String × Json N)}

/-- Fields one by one. -/
theorem wellFormedFields_iff :
    WellFormedFields fields ↔ ∀ field ∈ fields, field.2.WellFormed := by
  induction fields with
  | nil => simp [WellFormedFields]
  | cons field rest ih => simp [WellFormedFields, ih]

mutual

/-- Equality, which does not look at the order of fields. -/
def beq [BEq N] : Json N → Json N → Bool
  | .null, .null => true
  | .bool a, .bool b => a == b
  | .number a, .number b => a == b
  | .string a, .string b => a == b
  | .array as, .array bs => beqItems as bs
  | .object as, .object bs => as.length == bs.length && beqFields as bs
  | _, _ => false

/-- Items that are equal one by one. -/
def beqItems [BEq N] : List (Json N) → List (Json N) → Bool
  | [], [] => true
  | a :: as, b :: bs => beq a b && beqItems as bs
  | _, _ => false

/-- Fields that are equal one by one, in any order. -/
def beqFields [BEq N] : List (String × Json N) → List (String × Json N) → Bool
  | [], _ => true
  | (key, a) :: as, bs =>
    (match bs.lookup key with
      | some b => beq a b
      | none => false) && beqFields as bs

end

/-- `==`. -/
instance [BEq N] : BEq (Json N) := ⟨beq⟩

variable {field : String × Json N}

/-- Fields are found by their keys. -/
theorem lookup_of_mem (h : fieldsUnique fields) (hfield : field ∈ fields) :
    fields.lookup field.1 = some field.2 := by
  induction fields with
  | nil => cases hfield
  | cons first rest ih =>
    have ⟨hnew, hrest⟩ := List.nodup_cons.mp h
    cases hfield with
    | head => rw [List.lookup_cons_self]
    | tail _ hmem =>
      have hne : (field.1 == first.1) = false := by
        rw [beq_eq_false_iff_ne]
        intro heq
        exact hnew (heq ▸ List.mem_map_of_mem hmem)
      rw [List.lookup_cons, hne]
      exact ih hrest hmem

private theorem beqItems_self [BEq N] {items : List (Json N)}
    (h : ∀ item ∈ items, item.beq item = true) : beqItems items items = true := by
  induction items with
  | nil => rfl
  | cons item rest ih =>
    rw [beqItems, h item List.mem_cons_self, ih fun other hother ↦ h other (.tail _ hother)]
    rfl

private theorem beqFields_self [BEq N] {all : List (String × Json N)} (hunique : fieldsUnique all)
    (hsub : ∀ field ∈ fields, field ∈ all) (h : ∀ field ∈ fields, field.2.beq field.2 = true) :
    beqFields fields all = true := by
  induction fields with
  | nil => rfl
  | cons field rest ih =>
    have hlookup := lookup_of_mem hunique (hsub field List.mem_cons_self)
    have hself := h field List.mem_cons_self
    have ⟨key, value⟩ := field
    rw [beqFields, hlookup]
    simp only [hself, Bool.true_and]
    exact ih (fun other hother ↦ hsub other (.tail _ hother))
      fun other hother ↦ h other (.tail _ hother)

/-- A value with different keys in its objects equals itself. -/
theorem beq_self [BEq N] [ReflBEq N] (v : Json N) (h : v.WellFormed) : v.beq v = true := by
  induction v using inductionOn with
  | null => rfl
  | bool value => simp [beq]
  | number value => simp [beq]
  | string value => simp [beq]
  | array items ih =>
    have hitems : ∀ item ∈ items, item.WellFormed := wellFormedItems_iff.mp h
    rw [beq]
    exact beqItems_self fun item hitem ↦ ih item hitem (hitems item hitem)
  | object fields ih =>
    have hfields : ∀ field ∈ fields, field.2.WellFormed := wellFormedFields_iff.mp h.2
    rw [beq, beqFields_self h.1 (fun field hfield ↦ hfield)
      fun field hfield ↦ ih field hfield (hfields field hfield)]
    simp

/-! ### Objects -/

/-- Set a field: in its place, or at the end if it is new. -/
def insertField (fields : List (String × Json N)) (key : String) (value : Json N) :
    List (String × Json N) :=
  if key ∈ fields.map Prod.fst then
    fields.map fun field ↦ if field.1 = key then (key, value) else field
  else fields ++ [(key, value)]

/-- Set the fields one after the other. -/
def insertFields (fields : List (String × Json N)) : List (String × Json N) → List (String × Json N)
  | [] => fields
  | (key, value) :: rest => insertFields (insertField fields key value) rest

private theorem insertField_keys (fields : List (String × Json N)) (key : String) (value : Json N) :
    (insertField fields key value).map Prod.fst =
      if key ∈ fields.map Prod.fst then fields.map Prod.fst else fields.map Prod.fst ++ [key] := by
  unfold insertField
  split
  · rw [List.map_map]
    apply List.map_congr_left
    intro field _
    simp only [Function.comp_apply]
    split
    · next hkey => exact hkey.symm
    · rfl
  · simp

/-- Inserting keeps the keys different. -/
theorem insertField_unique (h : fieldsUnique fields) (key : String) (value : Json N) :
    fieldsUnique (insertField fields key value) := by
  unfold fieldsUnique
  rw [insertField_keys]
  split
  · exact h
  · next hnew =>
    rw [List.nodup_append]
    constructor
    · exact h
    · constructor
      · simp
      · intro other hother last hlast heq
        rw [List.mem_singleton.mp hlast] at heq
        exact hnew (heq ▸ hother)

theorem insertFields_unique (h : fieldsUnique fields) (rest : List (String × Json N)) :
    fieldsUnique (insertFields fields rest) := by
  induction rest generalizing fields with
  | nil => exact h
  | cons field rest ih => exact ih (insertField_unique h field.1 field.2)

theorem mem_insertField {key : String} {value : Json N} (h : field ∈ insertField fields key value) :
    field ∈ fields ∨ field = (key, value) := by
  unfold insertField at h
  split at h
  · have ⟨old, hold, heq⟩ := List.mem_map.mp h
    split at heq
    · exact Or.inr heq.symm
    · exact Or.inl (heq ▸ hold)
  · simpa using h

theorem mem_insertFields {rest : List (String × Json N)} (h : field ∈ insertFields fields rest) :
    field ∈ fields ∨ field ∈ rest := by
  induction rest generalizing fields with
  | nil => exact Or.inl h
  | cons first rest ih =>
    cases ih h with
    | inl hinserted =>
      cases mem_insertField hinserted with
      | inl hold => exact Or.inl hold
      | inr hfirst => exact Or.inr (hfirst ▸ List.mem_cons_self)
    | inr hrest => exact Or.inr (List.mem_cons_of_mem _ hrest)

/-- New fields with different keys are put at the end. -/
theorem insertFields_of_unique {rest : List (String × Json N)} (h : fieldsUnique (fields ++ rest)) :
    insertFields fields rest = fields ++ rest := by
  induction rest generalizing fields with
  | nil => simp [insertFields]
  | cons field rest ih =>
    have hnew : field.1 ∉ fields.map Prod.fst := by
      intro hmem
      unfold fieldsUnique at h
      rw [List.map_append, List.nodup_append] at h
      exact h.2.2 field.1 hmem field.1 (by simp) rfl
    rw [insertFields, insertField, if_neg hnew, ih]
    · simp
    · simpa using h

private theorem filter_insertField (test : String → Bool) (fields : List (String × Json N))
    (key : String) (value : Json N) :
    (insertField fields key value).filter (fun field ↦ test field.1) =
      if test key = true then insertField (fields.filter fun field ↦ test field.1) key value
      else fields.filter fun field ↦ test field.1 := by
  have hset : (fields.map fun field ↦ if field.1 = key then (key, value) else field).filter
      (fun field ↦ test field.1) = (fields.filter fun field ↦ test field.1).map
        fun field ↦ if field.1 = key then (key, value) else field := by
    rw [List.filter_map]
    congr 2
    funext field
    simp only [Function.comp_apply]
    split
    · next hkey => rw [hkey]
    · rfl
  have hmem : test key = true → (key ∈ (fields.filter fun field ↦ test field.1).map Prod.fst ↔
      key ∈ fields.map Prod.fst) := by
    intro htest
    simp [htest]
  have hskip : test key ≠ true → (fields.filter fun field ↦ test field.1).map
      (fun field ↦ if field.1 = key then (key, value) else field) =
        fields.filter fun field ↦ test field.1 := by
    intro htest
    have hid : ∀ field ∈ fields.filter fun field ↦ test field.1,
        (if field.1 = key then (key, value) else field) = id field := by
      intro field hfield
      have hpass := (List.mem_filter.mp hfield).2
      rw [if_neg]
      · rfl
      · intro hkey
        exact htest (hkey ▸ hpass)
    rw [List.map_congr_left hid, List.map_id]
  unfold insertField
  by_cases htest : test key = true
  · rw [if_pos htest]
    by_cases hkey : key ∈ fields.map Prod.fst
    · rw [if_pos hkey, if_pos ((hmem htest).mpr hkey), hset]
    · rw [if_neg hkey, if_neg (fun h ↦ hkey ((hmem htest).mp h)), List.filter_append]
      simp [htest]
  · rw [if_neg htest]
    by_cases hkey : key ∈ fields.map Prod.fst
    · rw [if_pos hkey, hset, hskip htest]
    · rw [if_neg hkey, List.filter_append]
      simp [htest]

/-- A test of the keys can be made before or after. -/
theorem filter_insertFields (test : String → Bool) (fields rest : List (String × Json N)) :
    (insertFields fields rest).filter (fun field ↦ test field.1) =
      insertFields (fields.filter fun field ↦ test field.1)
        (rest.filter fun field ↦ test field.1) := by
  induction rest generalizing fields with
  | nil => rfl
  | cons field rest ih =>
    have ⟨key, value⟩ := field
    rw [insertFields, ih, List.filter_cons]
    have hfilter : (insertField fields key value).filter (fun field ↦ test field.1) =
        if test key = true then
          insertField (fields.filter fun field ↦ test field.1) key value
        else fields.filter fun field ↦ test field.1 := filter_insertField test fields key value
    rw [hfilter]
    split
    · rfl
    · rfl

/-- What is found after an insertion. -/
theorem lookup_insertField (fields : List (String × Json N)) (key : String)
    (value : Json N) (other : String) :
    (insertField fields key value).lookup other =
      if other = key then some value else fields.lookup other := by
  have hset : (fields.map fun field ↦ if field.1 = key then (key, value) else field).lookup
      other = if other = key then (if key ∈ fields.map Prod.fst then some value else none)
        else fields.lookup other := by
    induction fields with
    | nil => simp
    | cons field fields ih =>
      have ⟨first, old⟩ := field
      rw [List.map_cons]
      by_cases hfirst : first = key
      · by_cases hother : other = key
        · simp [hfirst, hother]
        · simp only [hfirst, if_true, List.lookup_cons, beq_false_of_ne hother, ih, if_neg hother]
      · simp only [if_neg hfirst, List.lookup_cons, ih]
        by_cases hother : other = key
        · subst hother
          have hmem : other ∈ ((first, old) :: fields).map Prod.fst ↔
              other ∈ fields.map Prod.fst := by
            simp only [List.map_cons, List.mem_cons, or_iff_right_iff_imp]
            intro heq
            exact absurd heq.symm hfirst
          simp only [beq_false_of_ne (Ne.symm hfirst), hmem]
        · simp [hother]
  unfold insertField
  split
  · next hkey =>
    rw [hset, if_pos hkey]
  · next hkey =>
    rw [List.lookup_append, List.lookup_cons, List.lookup_nil]
    by_cases hother : other = key
    · have hnone : fields.lookup other = none := by
        rw [List.lookup_eq_none_iff]
        intro field hfield
        rw [bne_iff_ne]
        intro heq
        exact hkey (List.mem_map.mpr ⟨field, hfield, heq.symm.trans hother⟩)
      rw [if_pos hother, hnone, beq_iff_eq.mpr hother]
      rfl
    · rw [if_neg hother, beq_false_of_ne hother]
      simp

/-- The last value of a key is the one that stays. -/
theorem lookup_insertFields (fields rest : List (String × Json N)) (key : String) :
    (insertFields fields rest).lookup key = (rest.reverse.lookup key).or (fields.lookup key) := by
  induction rest generalizing fields with
  | nil => simp [insertFields]
  | cons field rest ih =>
    rw [insertFields, ih, lookup_insertField, List.reverse_cons, List.lookup_append,
      List.lookup_cons, List.lookup_nil, Option.or_assoc]
    congr 1
    by_cases hkey : key = field.1
    · simp [hkey]
    · simp [beq_false_of_ne hkey, hkey]

/-! ### Strings -/

/-- The value of a hexadecimal digit. -/
def hexDigit (c : Char) : Option Nat :=
  if '0' ≤ c ∧ c ≤ '9' then some (c.toNat - 48)
  else if 'a' ≤ c ∧ c ≤ 'f' then some (c.toNat - 87)
  else if 'A' ≤ c ∧ c ≤ 'F' then some (c.toNat - 55)
  else none

/-- A hexadecimal digit in lower case. -/
def hexChar (n : Nat) : Char := if n < 10 then Char.ofNat (48 + n) else Char.ofNat (87 + n)

/-- The value of four hexadecimal digits. -/
def hex4 (a b c d : Char) : Option Nat :=
  match hexDigit a, hexDigit b, hexDigit c, hexDigit d with
  | some a, some b, some c, some d => some (((a * 16 + b) * 16 + c) * 16 + d)
  | _, _, _, _ => none

/-- What stands for a control character behind a backslash. -/
def shortEscapes : List (Char × Char) :=
  [('"', '"'), ('\\', '\\'), (Char.ofNat 8, 'b'), (Char.ofNat 12, 'f'), ('\n', 'n'),
    ('\r', 'r'), ('\t', 't')]

/-- The text of a character between quotes. -/
def escapeChar (c : Char) : List Char :=
  match shortEscapes.lookup c with
  | some short => ['\\', short]
  | none =>
    if c.toNat < 0x20 then
      ['\\', 'u', '0', '0', hexChar (c.toNat / 16), hexChar (c.toNat % 16)]
    else [c]

/-- What a character behind a backslash stands for. -/
def unescapeChar (c : Char) : Option Char :=
  if c = '/' then some '/' else (shortEscapes.find? (·.2 = c)).map (·.1)

/-- The characters of a text between quotes. -/
def decodeString : List Char → Option (List Char)
  | [] => some []
  | '\\' :: 'u' :: a :: b :: c :: d :: rest =>
    match hex4 a b c d with
    | none => none
    | some high =>
      if 0xDC00 ≤ high ∧ high ≤ 0xDFFF then none
      else if 0xD800 ≤ high ∧ high ≤ 0xDBFF then
        match rest with
        | '\\' :: 'u' :: a :: b :: c :: d :: rest =>
          match hex4 a b c d with
          | none => none
          | some low =>
            if 0xDC00 ≤ low ∧ low ≤ 0xDFFF then
              (decodeString rest).map
                (Char.ofNat (0x10000 + (high - 0xD800) * 0x400 + (low - 0xDC00)) :: ·)
            else none
        | _ => none
      else (decodeString rest).map (Char.ofNat high :: ·)
  | '\\' :: c :: rest =>
    match unescapeChar c with
    | none => none
    | some c => (decodeString rest).map (c :: ·)
  | ['\\'] => none
  | c :: rest => if c.toNat < 0x20 then none else (decodeString rest).map (c :: ·)

/-- A text that does not end the quotes it stands in. -/
inductive Quoted : List Char → Prop
  | nil : Quoted []
  | escape (c : Char) {rest : List Char} : Quoted rest → Quoted ('\\' :: c :: rest)
  | plain {c : Char} {rest : List Char} : c ≠ '"' → c ≠ '\\' → Quoted rest → Quoted (c :: rest)

theorem Quoted.append {front back : List Char} (hfront : Quoted front) (hback : Quoted back) :
    Quoted (front ++ back) := by
  induction hfront with
  | nil => exact hback
  | escape c _ ih => exact .escape c ih
  | plain hquote hslash _ ih => exact .plain hquote hslash ih

/-- The text up to the closing quote. -/
def splitQuoted : List Char → Option (List Char × List Char)
  | [] => none
  | '"' :: rest => some ([], rest)
  | '\\' :: c :: rest =>
    match splitQuoted rest with
    | none => none
    | some (body, rest) => some ('\\' :: c :: body, rest)
  | ['\\'] => none
  | c :: rest =>
    match splitQuoted rest with
    | none => none
    | some (body, rest) => some (c :: body, rest)

/-- A string ends at its quote. -/
theorem splitQuoted_append {body : List Char} (h : Quoted body) (rest : List Char) :
    splitQuoted (body ++ '"' :: rest) = some (body, rest) := by
  induction h with
  | nil => rfl
  | escape c _ ih =>
    simp only [List.cons_append, splitQuoted]
    rw [ih]
  | plain hquote hslash _ ih =>
    rw [List.cons_append, splitQuoted]
    · rw [ih]
    · exact hquote
    · intro c rest heq
      exact absurd heq hslash
    · intro heq
      exact absurd heq hslash

/-- What a string and its rest were. -/
theorem splitQuoted_eq_some {text body rest : List Char}
    (h : splitQuoted text = some (body, rest)) : Quoted body ∧ text = body ++ '"' :: rest := by
  fun_induction splitQuoted text generalizing body with
  | case1 => cases h
  | case2 => 
    cases h
    exact ⟨.nil, rfl⟩
  | case3 => cases h
  | case4 c text body' rest' hsplit ih =>
    cases h
    have ⟨hquoted, htext⟩ := ih hsplit
    exact ⟨.escape c hquoted, by rw [htext]; rfl⟩
  | case5 => cases h
  | case6 => cases h
  | case7 c text hquote hescape hslash body' rest' hsplit ih =>
    cases h
    have ⟨hquoted, htext⟩ := ih hsplit
    have hplain : c ≠ '\\' := by
      intro hc
      cases text with
      | nil => exact hslash hc rfl
      | cons d text => exact hescape d text hc rfl
    exact ⟨.plain hquote hplain hquoted, by rw [htext]; rfl⟩

private theorem quoted_escapeChar (c : Char) : Quoted (escapeChar c) := by
  unfold escapeChar
  split
  · exact .escape _ .nil
  · next hshort =>
    split
    · next hcontrol =>
      apply Quoted.escape
      have hhex : ∀ n < 16, hexChar n ≠ '"' ∧ hexChar n ≠ '\\' := by decide
      have hhigh := hhex (c.toNat / 16) (by omega)
      have hlow := hhex (c.toNat % 16) (by omega)
      exact .plain (by decide) (by decide) (.plain (by decide) (by decide)
        (.plain hhigh.1 hhigh.2 (.plain hlow.1 hlow.2 .nil)))
    · apply Quoted.plain _ _ .nil
      · intro hc
        rw [hc] at hshort
        cases hshort
      · intro hc
        rw [hc] at hshort
        cases hshort

private theorem decodeString_escapeChar (c : Char) (rest : List Char) :
    decodeString (escapeChar c ++ rest) = (decodeString rest).map (c :: ·) := by
  unfold escapeChar
  split
  · next short hshort =>
    have htable : ∀ pair ∈ shortEscapes, unescapeChar pair.2 = some pair.1 ∧ pair.2 ≠ 'u' := by
      decide
    have hmem : (c, short) ∈ shortEscapes := by
      have ⟨front, back, hsplit, _⟩ := List.lookup_eq_some_iff.mp hshort
      rw [hsplit]
      simp
    have ⟨hunescape, hu⟩ := htable _ hmem
    rw [List.cons_append, List.cons_append, List.nil_append, decodeString]
    · rw [hunescape]
    · intro a b c d rest heq
      exact absurd heq hu
  · next hshort =>
    split
    · next hcontrol =>
      have hhex : ∀ n < 32, hex4 '0' '0' (hexChar (n / 16)) (hexChar (n % 16)) = some n := by
        decide
      have hcode := hhex c.toNat hcontrol
      simp only [List.cons_append, List.nil_append, decodeString]
      rw [hcode]
      have hlow : ¬ (0xDC00 ≤ c.toNat ∧ c.toNat ≤ 0xDFFF) := by omega
      have hhigh : ¬ (0xD800 ≤ c.toNat ∧ c.toNat ≤ 0xDBFF) := by omega
      simp only [if_neg hlow, if_neg hhigh, Char.ofNat_toNat]
    · next hprint =>
      have hslash : c ≠ '\\' := by
        intro hc
        rw [hc] at hshort
        cases hshort
      rw [List.cons_append, List.nil_append, decodeString]
      · rw [if_neg hprint]
      · intro a b c d rest heq
        exact absurd heq hslash
      · intro d rest heq
        exact absurd heq hslash
      · intro heq
        exact absurd heq hslash

/-- The text of a string between its quotes. -/
def encodeString (s : String) : List Char := s.toList.flatMap escapeChar

theorem quoted_encodeString (s : String) : Quoted (encodeString s) := by
  unfold encodeString
  induction s.toList with
  | nil => exact .nil
  | cons c rest ih => exact (quoted_escapeChar c).append ih

/-- A string that is written is read back. -/
theorem decodeString_encodeString (s : String) :
    decodeString (encodeString s) = some s.toList := by
  unfold encodeString
  induction s.toList with
  | nil => rfl
  | cons c rest ih =>
    rw [List.flatMap_cons, decodeString_escapeChar, ih]
    rfl

/-- The string in its quotes. -/
def quote (s : String) : List Char := '"' :: (encodeString s ++ ['"'])

/-! ### Numbers -/

/-- The characters a number is made of. -/
def isNumberChar (c : Char) : Bool :=
  c.isDigit || c == '+' || c == '-' || c == '.' || c == 'e' || c == 'E'

/-- What a number is, how it is read and how it is written. -/
structure Numbers (N : Type) where
  parse : List Char → Option N
  print : N → List Char
  parse_nil : parse [] = none
  parse_chars : ∀ lexeme n, parse lexeme = some n → ∀ c ∈ lexeme, isNumberChar c = true
  parse_print : ∀ n, parse (print n) = some n

/-- Natural numbers, which are read as they are written. -/
def naturals : Numbers Nat where
  parse lexeme :=
    let n := Nat.ofDigitChars 10 lexeme 0
    if Nat.toDigits 10 n = lexeme then some n else none
  print n := Nat.toDigits 10 n
  parse_nil := rfl
  parse_chars lexeme n h c hc := by
    dsimp only at h
    split at h
    · next hprint =>
      rw [← hprint] at hc
      simp [isNumberChar, Nat.isDigit_of_mem_toDigits (by decide) (by decide) hc]
    · cases h
  parse_print n := by simp

/-! ### The printer -/

/-- A line break and the indentation of the next line. -/
def newline (depth : Nat) : List Char := '\n' :: List.replicate (2 * depth) ' '

mutual

/-- Two spaces for each level, as `to_string_pretty` prints. -/
def pretty (numbers : Numbers N) (depth : Nat) : Json N → List Char
  | .null => "null".toList
  | .bool true => "true".toList
  | .bool false => "false".toList
  | .number n => numbers.print n
  | .string s => quote s
  | .array [] => "[]".toList
  | .array (item :: rest) =>
    '[' :: (newline (depth + 1) ++ pretty numbers (depth + 1) item ++
      prettyItems numbers (depth + 1) rest ++ newline depth ++ [']'])
  | .object [] => ['\x7b', '\x7d']
  | .object ((key, value) :: rest) =>
    '\x7b' :: (newline (depth + 1) ++ quote key ++ ": ".toList ++
      pretty numbers (depth + 1) value ++ prettyFields numbers (depth + 1) rest ++
      newline depth ++ ['\x7d'])

/-- The items behind the first. -/
def prettyItems (numbers : Numbers N) (depth : Nat) : List (Json N) → List Char
  | [] => []
  | item :: rest =>
    ',' :: (newline depth ++ pretty numbers depth item ++ prettyItems numbers depth rest)

/-- The fields behind the first. -/
def prettyFields (numbers : Numbers N) (depth : Nat) : List (String × Json N) → List Char
  | [] => []
  | (key, value) :: rest =>
    ',' :: (newline depth ++ quote key ++ ": ".toList ++ pretty numbers depth value ++
      prettyFields numbers depth rest)

end

/-! ### The parser -/

/-- The spaces of JSON. -/
def isSpace (c : Char) : Bool := c == ' ' || c == '\t' || c == '\n' || c == '\r'

/-- A character of a literal name or a number; the others are spaces or stand for themselves. -/
def isScalar (c : Char) : Bool :=
  !isSpace c && c != '[' && c != ']' && c != '\x7b' && c != '\x7d' && c != ',' && c != ':' &&
    c != '"'

/-- A literal name or a number. -/
def parseScalar (numbers : Numbers N) (lexeme : List Char) : Option (Json N) :=
  if lexeme = "null".toList then some .null
  else if lexeme = "true".toList then some (.bool true)
  else if lexeme = "false".toList then some (.bool false)
  else (numbers.parse lexeme).map .number

/-- A string and what is behind it. -/
def parseString (text : List Char) : Option (String × List Char) :=
  match splitQuoted text with
  | none => none
  | some (body, rest) =>
    match decodeString body with
    | none => none
    | some s => some (String.ofList s, rest)

/-- The text behind its leading spaces. -/
def skipSpaces (text : List Char) : List Char := text.dropWhile isSpace

mutual

/-- A value and what follows it. -/
def parseValue (numbers : Numbers N) : Nat → List Char → Option (Json N × List Char)
  | 0, _ => none
  | fuel + 1, text =>
    match skipSpaces text with
    | [] => none
    | '[' :: rest =>
      match skipSpaces rest with
      | ']' :: rest => some (.array [], rest)
      | _ => (parseItems numbers fuel rest).map fun (items, rest) ↦ (.array items, rest)
    | '\x7b' :: rest =>
      match skipSpaces rest with
      | '\x7d' :: rest => some (.object [], rest)
      | _ =>
        (parseMembers numbers fuel rest).map fun (members, rest) ↦
          (.object (insertFields [] members), rest)
    | '"' :: rest => (parseString rest).map fun (s, rest) ↦ (.string s, rest)
    | c :: rest =>
      (parseScalar numbers ((c :: rest).takeWhile isScalar)).map fun value ↦
        (value, (c :: rest).dropWhile isScalar)

/-- The items of an array that is not empty, up to its end. -/
def parseItems (numbers : Numbers N) : Nat → List Char → Option (List (Json N) × List Char)
  | 0, _ => none
  | fuel + 1, text =>
    match parseValue numbers fuel text with
    | none => none
    | some (item, rest) =>
      match skipSpaces rest with
      | ']' :: rest => some ([item], rest)
      | ',' :: rest =>
        (parseItems numbers fuel rest).map fun (items, rest) ↦ (item :: items, rest)
      | _ => none

/-- The members of an object that is not empty, up to its end. -/
def parseMembers (numbers : Numbers N) :
    Nat → List Char → Option (List (String × Json N) × List Char)
  | 0, _ => none
  | fuel + 1, text =>
    match skipSpaces text with
    | '"' :: rest =>
      match parseString rest with
      | none => none
      | some (key, rest) =>
        match skipSpaces rest with
        | ':' :: rest =>
          match parseValue numbers fuel rest with
          | none => none
          | some (value, rest) =>
            match skipSpaces rest with
            | '\x7d' :: rest => some ([(key, value)], rest)
            | ',' :: rest =>
              (parseMembers numbers fuel rest).map fun (members, rest) ↦
                ((key, value) :: members, rest)
            | _ => none
        | _ => none
    | _ => none

end

/-- `from_str`: one value with spaces around it. -/
def fromStr (numbers : Numbers N) (text : List Char) : Option (Json N) :=
  match parseValue numbers (text.length + 1) text with
  | none => none
  | some (value, rest) => if rest.all isSpace then some value else none

end Json
end Bootty.Base
