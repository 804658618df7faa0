/-!
Blank characters, and the cuts of a text that depend on them or on a separator.
Texts are lists of characters or of code points. Trimming takes off exactly what was put around a
text without blanks at its ends.
-/
namespace TrafficIndicator.Text

variable {α : Type}

/-- The code points that separate words: the Unicode spaces, the line ends and the four
information separators. -/
def isBlankPoint (n : Nat) : Bool :=
  (9 ≤ n && n ≤ 13) || (28 ≤ n && n ≤ 32) || n == 0x85 || n == 0xA0 || n == 0x1680 ||
  (0x2000 ≤ n && n ≤ 0x200A) || n == 0x2028 || n == 0x2029 || n == 0x202F || n == 0x205F ||
  n == 0x3000

def isBlank (c : Char) : Bool := isBlankPoint c.toNat

def trimWhere (p : α → Bool) (cs : List α) : List α :=
  ((cs.dropWhile p).reverse.dropWhile p).reverse

def trim (cs : List Char) : List Char := trimWhere isBlank cs

def splitWhere (p : α → Bool) : List α → List (List α)
  | [] => [[]]
  | c :: cs =>
    if p c then [] :: splitWhere p cs
    else match splitWhere p cs with
      | [] => [[c]]
      | w :: ws => (c :: w) :: ws

def words (cs : List Char) : List (List Char) :=
  (splitWhere isBlank cs).filter (· ≠ [])

def unifyLineEnds : List Char → List Char
  | [] => []
  | '\r' :: '\n' :: cs => '\n' :: unifyLineEnds cs
  | c :: cs => (if c = '\r' then '\n' else c) :: unifyLineEnds cs

def lines (cs : List Char) : List (List Char) :=
  splitWhere (· = '\n') (unifyLineEnds cs)

def cutAt [DecidableEq α] (mark : α) : List α → Option (List α × List α)
  | [] => none
  | c :: cs =>
    if c = mark then some ([], cs)
    else (cutAt mark cs).map fun (before, after) => (c :: before, after)

theorem dropWhile_append_of_forall {p : α → Bool} {pad : List α} (h : ∀ c ∈ pad, p c = true)
    (cs : List α) : (pad ++ cs).dropWhile p = cs.dropWhile p := by
  induction pad with
  | nil => rfl
  | cons c pad ih =>
    have hc : p c = true := h c (by simp)
    rw [List.cons_append, List.dropWhile_cons, if_pos hc, ih fun d hd => h d (by simp [hd])]

theorem dropWhile_of_head? {p : α → Bool} {cs : List α} (h : ∀ c ∈ cs.head?, p c = false) :
    cs.dropWhile p = cs := by
  cases cs with
  | nil => rfl
  | cons c cs => simp [h c rfl]

theorem trimWhere_append {p : α → Bool} {before cs after : List α}
    (hb : ∀ c ∈ before, p c = true) (ha : ∀ c ∈ after, p c = true)
    (hf : ∀ c ∈ cs.head?, p c = false) (hl : ∀ c ∈ cs.getLast?, p c = false) :
    trimWhere p (before ++ cs ++ after) = cs := by
  rw [trimWhere, List.append_assoc, dropWhile_append_of_forall hb]
  cases cs with
  | nil =>
    have hr : after.dropWhile p = [] := by
      simpa using dropWhile_append_of_forall ha []
    simp [hr]
  | cons c cs =>
    have hr : ∀ d ∈ after.reverse, p d = true := fun d hd => ha d (List.mem_reverse.1 hd)
    have he : ∀ d ∈ (c :: cs).reverse.head?, p d = false := by
      rwa [List.head?_reverse]
    have hs : ((c :: cs) ++ after).dropWhile p = (c :: cs) ++ after :=
      dropWhile_of_head? fun d hd => hf d hd
    rw [hs, List.reverse_append, dropWhile_append_of_forall hr, dropWhile_of_head? he,
      List.reverse_reverse]

theorem trimWhere_of_ends {p : α → Bool} {cs : List α}
    (hf : ∀ c ∈ cs.head?, p c = false) (hl : ∀ c ∈ cs.getLast?, p c = false) :
    trimWhere p cs = cs := by
  simpa using @trimWhere_append α p [] cs [] (by simp) (by simp) hf hl

theorem splitWhere_ne_nil (p : α → Bool) (cs : List α) : splitWhere p cs ≠ [] := by
  induction cs with
  | nil => simp [splitWhere]
  | cons c cs ih =>
    rw [splitWhere]
    split
    · simp
    · split <;> simp

theorem splitWhere_append_of_not {p : α → Bool} {w : List α} (h : ∀ c ∈ w, p c = false)
    {c : α} (hc : p c = true) (cs : List α) :
    splitWhere p (w ++ c :: cs) = w :: splitWhere p cs := by
  induction w with
  | nil => simp [splitWhere, hc]
  | cons a w ih =>
    have ha : p a = false := h a (by simp)
    have := ih fun b hb => h b (by simp [hb])
    simp [splitWhere, ha, this]

theorem splitWhere_of_not {p : α → Bool} {w : List α} (h : ∀ c ∈ w, p c = false) :
    splitWhere p w = [w] := by
  induction w with
  | nil => rfl
  | cons a w ih =>
    have ha : p a = false := h a (by simp)
    have := ih fun b hb => h b (by simp [hb])
    simp [splitWhere, ha, this]

theorem cutAt_eq_none_iff [DecidableEq α] {mark : α} {cs : List α} :
    cutAt mark cs = none ↔ mark ∉ cs := by
  induction cs with
  | nil => simp [cutAt]
  | cons c cs ih =>
    by_cases h : c = mark
    · simp [cutAt, h]
    · simp [cutAt, h, ih, Ne.symm h]

theorem cutAt_append [DecidableEq α] {mark : α} {before : List α} (h : mark ∉ before)
    (after : List α) :
    cutAt mark (before ++ mark :: after) = some (before, after) := by
  induction before with
  | nil => simp [cutAt]
  | cons c cs ih =>
    simp only [List.mem_cons, not_or] at h
    simp [cutAt, Ne.symm h.1, ih h.2]

end TrafficIndicator.Text
