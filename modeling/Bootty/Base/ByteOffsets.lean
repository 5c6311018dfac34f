import Bootty.Base.Text

/-!
# Byte offsets

Texts are lists of characters; offsets count the bytes of their UTF-8, as those of `str` do. A cut
is meant at a boundary of characters, where the standard library does not panic.
-/

namespace Bootty.Base

/-- `str::len`. -/
def byteLength (text : List Char) : Nat := (text.map Char.utf8Size).sum

@[simp] theorem byteLength_nil : byteLength [] = 0 := rfl

@[simp] theorem byteLength_cons (c : Char) (rest : List Char) :
    byteLength (c :: rest) = c.utf8Size + byteLength rest := by
  simp [byteLength]

@[simp] theorem byteLength_append (front back : List Char) :
    byteLength (front ++ back) = byteLength front + byteLength back := by
  simp [byteLength]

/-- The text up to an offset. -/
def takeBytes (offset : Nat) : List Char → List Char
  | [] => []
  | c :: rest => if offset = 0 then [] else c :: takeBytes (offset - c.utf8Size) rest

/-- The text from an offset on. -/
def dropBytes (offset : Nat) : List Char → List Char
  | [] => []
  | c :: rest => if offset = 0 then c :: rest else dropBytes (offset - c.utf8Size) rest

/-- The text of a range. -/
def sliceBytes (start stop : Nat) (text : List Char) : List Char :=
  takeBytes (stop - start) (dropBytes start text)

/-- `String::replace_range`. -/
def replaceRange (text : List Char) (start stop : Nat) (replacement : List Char) : List Char :=
  takeBytes start text ++ replacement ++ dropBytes stop text

/-- `String::insert_str`. -/
def insertStr (text : List Char) (offset : Nat) (insertion : List Char) : List Char :=
  takeBytes offset text ++ insertion ++ dropBytes offset text

theorem takeBytes_append {front : List Char} {offset : Nat} (h : offset = byteLength front)
    (back : List Char) : takeBytes offset (front ++ back) = front := by
  subst h
  induction front with
  | nil => cases back <;> simp [takeBytes]
  | cons c rest ih =>
    have hpositive := c.utf8Size_pos
    rw [List.cons_append, takeBytes, byteLength_cons, if_neg (by omega), Nat.add_sub_cancel_left,
      ih]

variable {front : List Char} {offset : Nat}

theorem dropBytes_append (h : offset = byteLength front) (back : List Char) :
    dropBytes offset (front ++ back) = back := by
  subst h
  induction front with
  | nil => cases back <;> simp [dropBytes]
  | cons c rest ih =>
    have hpositive := c.utf8Size_pos
    rw [List.cons_append, dropBytes, byteLength_cons, if_neg (by omega), Nat.add_sub_cancel_left,
      ih]

theorem sliceBytes_append {middle : List Char} {start stop : Nat}
    (hstart : start = byteLength front) (hstop : stop = byteLength front + byteLength middle)
    (back : List Char) : sliceBytes start stop (front ++ middle ++ back) = middle := by
  rw [sliceBytes, List.append_assoc, dropBytes_append hstart, takeBytes_append]
  omega

/-- A range between two texts is replaced. -/
theorem replaceRange_append {middle : List Char} {start stop : Nat}
    (hstart : start = byteLength front) (hstop : stop = byteLength front + byteLength middle)
    (back replacement : List Char) :
    replaceRange (front ++ middle ++ back) start stop replacement =
      front ++ replacement ++ back := by
  have hstop' : stop = byteLength (front ++ middle) := by
    rw [hstop, byteLength_append]
  rw [replaceRange, dropBytes_append hstop', List.append_assoc front middle,
    takeBytes_append hstart]

theorem insertStr_append (h : offset = byteLength front) (back insertion : List Char) :
    insertStr (front ++ back) offset insertion = front ++ insertion ++ back := by
  rw [insertStr, takeBytes_append h, dropBytes_append h]

/-! ### Boundaries -/

/-- `str::is_char_boundary`. -/
def isCharBoundary : List Char → Nat → Bool
  | _, 0 => true
  | [], _ + 1 => false
  | c :: rest, offset => decide (c.utf8Size ≤ offset) && isCharBoundary rest (offset - c.utf8Size)

/-- A boundary is where a text can be cut. -/
theorem exists_cut_of_isCharBoundary {text : List Char} (h : isCharBoundary text offset = true) :
    ∃ front back, text = front ++ back ∧ byteLength front = offset := by
  fun_induction isCharBoundary text offset with
  | case1 text => exact ⟨[], text, rfl, rfl⟩
  | case2 => cases h
  | case3 c rest offset _ ih =>
    rw [Bool.and_eq_true, decide_eq_true_eq] at h
    have ⟨front, back, hrest, hlength⟩ := ih h.2
    refine ⟨c :: front, back, by rw [hrest, List.cons_append], ?_⟩
    rw [byteLength_cons, hlength]
    omega

theorem isCharBoundary_append (front back : List Char) :
    isCharBoundary (front ++ back) (byteLength front) = true := by
  induction front with
  | nil => cases back <;> rfl
  | cons c rest ih =>
    have hpositive := c.utf8Size_pos
    rw [List.cons_append, byteLength_cons, isCharBoundary, Nat.add_sub_cancel_left, ih]
    · simp
    · omega

/-! ### Lines -/

/-- The lines of a text of which the first line has begun with `line`, in reverse. -/
def linesFrom (line : List Char) : List Char → List (List Char)
  | [] => if line.isEmpty then [] else [line.reverse]
  | '\n' :: rest =>
    (match line with
      | '\r' :: line => line.reverse
      | line => line.reverse) :: linesFrom [] rest
  | c :: rest => linesFrom (c :: line) rest

/-- `str::lines`. -/
def lines (text : List Char) : List (List Char) := linesFrom [] text

example : lines "a\r\n\nb\r".toList = ["a".toList, [], "b\r".toList] := by decide

end Bootty.Base
