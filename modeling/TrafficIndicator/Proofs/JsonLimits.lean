import TrafficIndicator.Value.Json

/-!
A reader with limits finds in a text what a reader without any finds there, or it meets an
integer or an opening bracket that goes over a limit. A lexer that knows strings from the rest
tells how many brackets are open and whether a value may begin.
-/
namespace TrafficIndicator.Json

variable {α β : Type} {limits : Limits} {all : List Char} {depth : Nat} {c : Char}
  {cs ds rest : List Char}

def unlimited : Limits := { digits := none, depth := none }

inductive Mode where
  | outside
  | inText
  | escaped
  deriving DecidableEq

structure Lexed where
  opened : Nat := 0
  mode : Mode := .outside
  deriving DecidableEq

def opens (c : Char) : Bool := c = '[' || c = '\x7b'

def closes (c : Char) : Bool := c = ']' || c = '\x7d'

def Lexed.next (s : Lexed) (c : Char) : Lexed :=
  match s.mode with
  | .escaped => { s with mode := .inText }
  | .inText =>
    if c = '"' then { s with mode := .outside }
    else if c = '\\' then { s with mode := .escaped }
    else s
  | .outside =>
    if c = '"' then { s with mode := .inText }
    else if opens c then { s with opened := s.opened + 1 }
    else if closes c then { s with opened := s.opened - 1 }
    else s

def lexed (cs : List Char) : Lexed := cs.foldl Lexed.next {}

/-- `rest` is an end of the text that begins outside of its strings, inside of `depth` lists and
objects. -/
def At (all : List Char) (depth : Nat) (rest : List Char) : Prop :=
  ∃ used, all = used ++ rest ∧ lexed used = ⟨depth, .outside⟩

/-- Whether a value may stand behind a text, which is so at its beginning, behind an opening
bracket, a comma and a colon. -/
def awaits (used : List Char) : Bool :=
  (used.reverse.dropWhile isSpace).head?.all fun c => c = '[' || c = ',' || c = ':'

/-- An integer of a text: the digits that follow where a value may begin, perhaps with a minus
sign before them. A zero stands alone, and no fraction or exponent follows. -/
inductive IntegerIn (all ds : List Char) : Prop where
  | mk {used minus rest : List Char} (ht : all = used ++ (minus ++ (ds ++ rest)))
      (hused : (lexed used).mode = .outside) (hawaits : awaits used = true)
      (hminus : minus = [] ∨ minus = ['-']) (hdigits : ∀ c ∈ ds, c.isDigit = true)
      (hzero : ds = ['0'] ∨ (ds.head? ≠ some '0' ∧ ∀ c ∈ rest.head?, c.isDigit = false))
      (hwhole : (fractionPart rest).1 = [] ∧ (exponentPart rest).1 = none)

inductive Exceeded (limits : Limits) (all : List Char) : Failure → Prop where
  | digits {ds : List Char} (hi : IntegerIn all ds)
      (hl : exceeds limits.digits ds.length = true) :
      Exceeded limits all (.numeralTooLong ds.length)
  | nesting {depth : Nat} {rest : List Char} (ha : At all depth rest)
      (hl : exceeds limits.depth depth = true) : Exceeded limits all .tooDeep

theorem lexed_append (used cs : List Char) :
    lexed (used ++ cs) = cs.foldl Lexed.next (lexed used) :=
  List.foldl_append

def plain (c : Char) : Bool := c ≠ '"' && !opens c && !closes c

theorem next_plain (h : plain c = true) : Lexed.next ⟨depth, .outside⟩ c = ⟨depth, .outside⟩ := by
  simp only [plain, Bool.and_eq_true, decide_eq_true_eq, Bool.not_eq_true'] at h
  simp [Lexed.next, h]

theorem At.on (cs : List Char) (h : At all depth (cs ++ rest)) {n : Nat}
    (hn : cs.foldl Lexed.next ⟨depth, .outside⟩ = ⟨n, .outside⟩) : At all n rest := by
  obtain ⟨used, hall, hused⟩ := h
  refine ⟨used ++ cs, by rw [hall, List.append_assoc], ?_⟩
  rw [lexed_append, hused, hn]

theorem foldl_plain (h : ∀ c ∈ ds, plain c = true) :
    ds.foldl Lexed.next ⟨depth, .outside⟩ = ⟨depth, .outside⟩ := by
  induction ds with
  | nil => rfl
  | cons c ds ih =>
    rw [List.foldl_cons, next_plain (h c List.mem_cons_self)]
    exact ih fun d hd => h d (List.mem_cons_of_mem c hd)

theorem At.plain (h : At all depth (c :: cs)) (hc : plain c = true) : At all depth cs :=
  h.on [c] (next_plain hc)

theorem At.opened (h : At all depth (c :: cs)) (hc : opens c = true) : At all (depth + 1) cs := by
  refine h.on [c] ?_
  have hquote : c ≠ '"' := by
    rintro rfl
    cases hc
  simp [Lexed.next, hquote, hc]

theorem At.closed (h : At all (depth + 1) (c :: cs)) (hc : closes c = true) :
    At all depth cs := by
  refine h.on [c] ?_
  have hquote : c ≠ '"' := by
    rintro rfl
    cases hc
  have hopens : opens c = false := by
    simp only [closes, Bool.or_eq_true, decide_eq_true_eq] at hc
    rcases hc with rfl | rfl <;> rfl
  simp [Lexed.next, hquote, hc, hopens]

def Beyond (cs rest : List Char) : Prop := ∃ ds, cs = ds ++ rest ∧ ∀ c ∈ ds, plain c = true

theorem Beyond.refl (cs : List Char) : Beyond cs cs := ⟨[], rfl, nofun⟩

theorem Beyond.cons (h : Beyond cs rest) (hc : plain c = true) : Beyond (c :: cs) rest := by
  obtain ⟨ds, rfl, hds⟩ := h
  exact ⟨c :: ds, rfl, List.forall_mem_cons.mpr ⟨hc, hds⟩⟩

theorem Beyond.trans (h : Beyond cs ds) (h' : Beyond ds rest) : Beyond cs rest := by
  obtain ⟨as, rfl, has⟩ := h
  obtain ⟨bs, rfl, hbs⟩ := h'
  exact ⟨as ++ bs, by rw [List.append_assoc], List.forall_mem_append.mpr ⟨has, hbs⟩⟩

theorem At.beyond (h : At all depth cs) (hb : Beyond cs rest) : At all depth rest := by
  obtain ⟨ds, rfl, hds⟩ := hb
  exact h.on _ (foldl_plain hds)

theorem plain_of_isSpace (h : isSpace c = true) : plain c = true := by
  simp only [isSpace, Bool.or_eq_true, decide_eq_true_eq] at h
  rcases h with ((rfl | rfl) | rfl) | rfl <;> rfl

theorem plain_of_isDigit (h : c.isDigit = true) : plain c = true := by
  have hne : ∀ d : Char, d.isDigit = false → c ≠ d := by
    rintro d hd rfl
    rw [h] at hd
    cases hd
  simp [plain, opens, closes, hne]

theorem skipSpace_beyond (cs : List Char) : Beyond cs (skipSpace cs) :=
  ⟨cs.takeWhile isSpace, (List.takeWhile_append_dropWhile ..).symm,
    fun _ hc => plain_of_isSpace (List.all_eq_true.mp List.all_takeWhile _ hc)⟩

theorem At.space (h : At all depth cs) : At all depth (skipSpace cs) :=
  h.beyond (skipSpace_beyond cs)

def ValueAt (all : List Char) (depth : Nat) (rest : List Char) : Prop :=
  ∃ used, all = used ++ rest ∧ lexed used = ⟨depth, .outside⟩ ∧ awaits used = true

theorem ValueAt.at (h : ValueAt all depth cs) : At all depth cs := by
  obtain ⟨used, hall, hused, -⟩ := h
  exact ⟨used, hall, hused⟩

theorem awaits_append {spaces : List Char} (hc : (c = '[' || c = ',' || c = ':') = true)
    (hs : ∀ c ∈ spaces, isSpace c = true) (used : List Char) :
    awaits (used ++ c :: spaces) = true := by
  have hspace : isSpace c = false := by
    simp only [Bool.or_eq_true, decide_eq_true_eq] at hc
    rcases hc with (rfl | rfl) | rfl <;> rfl
  have hreverse : (used ++ c :: spaces).reverse = spaces.reverse ++ c :: used.reverse := by simp
  rw [awaits, hreverse, List.dropWhile_append_of_pos fun d hd => hs d (List.mem_reverse.mp hd),
    List.dropWhile_cons_of_neg (by simp [hspace])]
  exact hc

/-- A value may begin behind an opening bracket, a comma and a colon, perhaps after some space. -/
theorem At.value (h : At all depth (c :: cs)) {n : Nat}
    (hc : (c = '[' || c = ',' || c = ':') = true)
    (hn : Lexed.next ⟨depth, .outside⟩ c = ⟨n, .outside⟩) : ValueAt all n (skipSpace cs) := by
  obtain ⟨used, hall, hused⟩ := h
  have hsplit : cs = cs.takeWhile isSpace ++ skipSpace cs :=
    (List.takeWhile_append_dropWhile ..).symm
  have hspaces : ∀ c ∈ cs.takeWhile isSpace, isSpace c = true :=
    List.all_eq_true.mp List.all_takeWhile
  refine ⟨used ++ c :: cs.takeWhile isSpace, ?_, ?_, awaits_append hc hspaces used⟩
  · rw [hall, List.append_assoc, List.cons_append, ← hsplit]
  · rw [lexed_append, List.foldl_cons, hused, hn]
    exact foldl_plain fun c hc => plain_of_isSpace (hspaces c hc)

theorem valueAt_start (cs : List Char) : ValueAt cs 0 (skipSpace cs) := by
  refine ⟨cs.takeWhile isSpace, (List.takeWhile_append_dropWhile ..).symm, ?_, ?_⟩
  · exact foldl_plain fun c hc => plain_of_isSpace (List.all_eq_true.mp List.all_takeWhile c hc)
  · have hspaces : ∀ c ∈ (cs.takeWhile isSpace).reverse, isSpace c = true :=
      fun c hc => List.all_eq_true.mp List.all_takeWhile c (List.mem_reverse.mp hc)
    have hdropped : ((cs.takeWhile isSpace).reverse ++ []).dropWhile isSpace = [] :=
      List.dropWhile_append_of_pos hspaces
    rw [List.append_nil] at hdropped
    rw [awaits, hdropped]
    rfl

/-- What a reader with limits makes of an end of a text, beside what one without limits makes of
it. -/
structure Spared (limits : Limits) (all : List Char) (depth : Nat)
    (x y : Except Failure (α × List Char)) : Prop where
  agrees : x = y ∨ ∃ e, x = .error e ∧ Exceeded limits all e
  malformed : ∀ e, y = .error e → e = .malformed
  ending : ∀ a rest, y = .ok (a, rest) → At all depth rest

variable {x y : Except Failure (α × List Char)}

theorem spared_ok (a : α) (h : At all depth rest) :
    Spared limits all depth (.ok (a, rest)) (.ok (a, rest)) where
  agrees := Or.inl rfl
  malformed _ h := by cases h
  ending _ _ h' := by cases h'; exact h

theorem spared_malformed :
    Spared limits all depth (.error .malformed : Except Failure (α × List Char))
      (.error .malformed) where
  agrees := Or.inl rfl
  malformed _ h := by cases h; rfl
  ending _ _ h := by cases h

theorem Spared.limited {e : Failure} (h : Spared limits all depth x y)
    (he : Exceeded limits all e) : Spared limits all depth (.error e) y :=
  ⟨Or.inr ⟨e, rfl, he⟩, h.malformed, h.ending⟩

theorem Spared.bind {n : Nat} {f g : α × List Char → Except Failure (β × List Char)}
    (h : Spared limits all depth x y)
    (hn : ∀ a rest, At all depth rest → Spared limits all n (f (a, rest)) (g (a, rest))) :
    Spared limits all n (x >>= f) (y >>= g) := by
  cases hy : y with
  | error e =>
    have he := h.malformed e hy
    subst he
    rcases h.agrees with hx | ⟨e, hx, hexceeded⟩
    · rw [hx, hy]
      exact spared_malformed
    · rw [hx]
      exact spared_malformed.limited hexceeded
  | ok p =>
    obtain ⟨a, rest⟩ := p
    have hnext := hn a rest (h.ending a rest hy)
    rcases h.agrees with hx | ⟨e, hx, hexceeded⟩
    · rw [hx, hy]
      exact hnext
    · rw [hx]
      exact hnext.limited hexceeded

theorem next_hexValue {v : Nat} (h : hexValue? c = some v) :
    Lexed.next ⟨depth, .inText⟩ c = ⟨depth, .inText⟩ := by
  have hne : ∀ d : Char, hexValue? d = none → c ≠ d := by
    rintro d hd rfl
    rw [h] at hd
    cases hd
  rw [Lexed.next, if_neg (hne '"' (by decide)), if_neg (hne '\\' (by decide))]

theorem next_codeUnit {a b c d : Char} {unit : Nat} (h : codeUnit? a b c d = some unit) :
    [a, b, c, d].foldl Lexed.next ⟨depth, .inText⟩ = ⟨depth, .inText⟩ := by
  obtain ⟨_, ha, h⟩ := Option.bind_eq_some_iff.mp h
  obtain ⟨_, hb, h⟩ := Option.bind_eq_some_iff.mp h
  obtain ⟨_, hc, h⟩ := Option.bind_eq_some_iff.mp h
  obtain ⟨_, hd, -⟩ := Option.bind_eq_some_iff.mp h
  simp only [List.foldl_cons, List.foldl_nil, next_hexValue ha, next_hexValue hb, next_hexValue hc,
    next_hexValue hd]

theorem scanText_ends (depth : Nat) {ps : List Nat} (h : scanText cs = some (ps, rest)) :
    ∃ inner, cs = inner ++ rest ∧
      inner.foldl Lexed.next ⟨depth, .inText⟩ = ⟨depth, .outside⟩ := by
  fun_induction scanText cs generalizing ps rest with
  | case1 => cases h
  | case2 cs =>
    cases h
    exact ⟨['"'], rfl, rfl⟩
  | case3 a b c d cs ih =>
    obtain ⟨unit, hunit, h⟩ := Option.bind_eq_some_iff.mp h
    obtain ⟨⟨qs, r⟩, hr, h⟩ := Option.bind_eq_some_iff.mp h
    cases h
    obtain ⟨inner, rfl, hinner⟩ := ih hr
    refine ⟨['\\', 'u'] ++ ([a, b, c, d] ++ inner), rfl, ?_⟩
    rw [List.foldl_append, List.foldl_append]
    exact (congrArg (inner.foldl Lexed.next) (next_codeUnit hunit)).trans hinner
  | case4 e cs hne ih =>
    obtain ⟨unit, -, h⟩ := Option.bind_eq_some_iff.mp h
    obtain ⟨⟨qs, r⟩, hr, h⟩ := Option.bind_eq_some_iff.mp h
    cases h
    obtain ⟨inner, rfl, hinner⟩ := ih hr
    exact ⟨['\\', e] ++ inner, rfl, hinner⟩
  | case5 c cs => cases h
  | case6 c cs hquote hescape hescape' hcontrol ih =>
    obtain ⟨⟨qs, r⟩, hr, h⟩ := Option.map_eq_some_iff.mp h
    cases h
    obtain ⟨inner, rfl, hinner⟩ := ih hr
    refine ⟨c :: inner, rfl, ?_⟩
    have hbackslash : c ≠ '\\' := by
      intro hc
      cases hafter : inner ++ rest with
      | nil =>
        rw [hafter] at hr
        cases hr
      | cons e es => exact hescape' e es hc hafter
    rw [List.foldl_cons, Lexed.next, if_neg hquote, if_neg hbackslash]
    exact hinner

theorem spared_text (h : At all depth ('"' :: cs)) :
    Spared limits all depth (text cs) (text cs) := by
  rw [text]
  cases hs : scanText cs with
  | none => exact spared_malformed
  | some p =>
    obtain ⟨inner, rfl, hinner⟩ := scanText_ends depth hs
    exact spared_ok _ (h.on ('"' :: inner) hinner)

theorem name_beyond {v : Value} (h : name? cs = some (v, rest)) : Beyond cs rest := by
  obtain ⟨⟨name, w⟩, hname, hw⟩ := List.exists_of_findSome?_eq_some h
  dsimp only at hw
  split at hw
  · rename_i hprefix
    cases hw
    obtain ⟨ds, rfl⟩ := List.isPrefixOf_iff_prefix.mp hprefix
    have hnames : (named.all fun p => p.1.toList.all plain) = true := by decide +kernel
    have hplain := List.all_eq_true.mp (List.all_eq_true.mp hnames _ hname)
    refine ⟨name.toList, ?_, hplain⟩
    rw [← String.length_toList, List.drop_left]
  · cases hw

theorem digitsIn_digit (cs : List Char) : ∀ c ∈ digitsIn cs, c.isDigit = true :=
  List.all_eq_true.mp List.all_takeWhile

theorem drop_digitsIn (cs : List Char) :
    cs.drop (digitsIn cs).length = cs.dropWhile Char.isDigit := by
  have hsplit : digitsIn cs ++ cs.dropWhile Char.isDigit = cs := List.takeWhile_append_dropWhile
  have hdrop : (digitsIn cs ++ cs.dropWhile Char.isDigit).drop (digitsIn cs).length =
      cs.dropWhile Char.isDigit := List.drop_left
  rwa [hsplit] at hdrop

theorem digitsIn_append_drop (cs : List Char) :
    digitsIn cs ++ cs.drop (digitsIn cs).length = cs := by
  rw [drop_digitsIn]
  exact List.takeWhile_append_dropWhile

theorem digits_beyond (cs : List Char) : Beyond cs (cs.drop (digitsIn cs).length) :=
  ⟨digitsIn cs, (digitsIn_append_drop cs).symm,
    fun _ hc => plain_of_isDigit (digitsIn_digit cs _ hc)⟩

theorem fractionPart_beyond (cs : List Char) : Beyond cs (fractionPart cs).2 := by
  rw [fractionPart.eq_def]
  split
  · dsimp only
    split
    · exact .refl _
    · exact (digits_beyond _).cons (by decide)
  · exact .refl _

theorem fractionPart_nil (h : (fractionPart cs).1 = []) : (fractionPart cs).2 = cs := by
  rw [fractionPart.eq_def] at h ⊢
  split at h
  · dsimp only at h ⊢
    split at h
    · rw [if_pos ‹_›]
    · exact absurd h ‹_›
  · rfl

theorem signed_beyond (cs : List Char) : Beyond cs (Text.signed cs).2 := by
  rw [Text.signed.eq_def]
  split
  · exact (Beyond.refl _).cons (by decide)
  · exact (Beyond.refl _).cons (by decide)
  · exact .refl _

theorem exponentPart_beyond (cs : List Char) : Beyond cs (exponentPart cs).2 := by
  rw [exponentPart.eq_def]
  split
  · rename_i e rest
    split
    · rename_i he
      dsimp only
      split
      · exact .refl _
      · refine ((signed_beyond rest).trans (digits_beyond _)).cons ?_
        rcases he with rfl | rfl <;> decide
    · exact .refl _
  · exact .refl _

theorem spared_number (minus : Bool) {sign : List Char} (hv : ValueAt all depth (sign ++ cs))
    (hs : sign = [] ∨ sign = ['-']) :
    Spared limits all depth (number limits minus cs) (number unlimited minus cs) := by
  have hsign : Beyond (sign ++ cs) cs := by
    rcases hs with rfl | rfl
    · exact .refl _
    · exact (Beyond.refl _).cons (by decide)
  unfold number
  extract_lets whole
  have hwhole : ∃ rest, cs = whole ++ rest ∧ (∀ c ∈ whole, c.isDigit = true) ∧
      (whole = ['0'] ∨ (whole.head? ≠ some '0' ∧ ∀ c ∈ rest.head?, c.isDigit = false)) := by
    dsimp only [whole]
    split
    · exact ⟨_, rfl, List.forall_mem_singleton.mpr rfl, .inl rfl⟩
    · rename_i hzero
      refine ⟨_, (digitsIn_append_drop cs).symm, digitsIn_digit cs, .inr ⟨?_, ?_⟩⟩
      · cases cs with
        | nil => simp [digitsIn]
        | cons c cs =>
          have hc : c ≠ '0' := fun hc => hzero cs (by rw [hc])
          rw [digitsIn, List.takeWhile_cons]
          split <;> simp [hc]
      · intro c hc
        have hnext := List.head?_dropWhile_not Char.isDigit cs
        rw [drop_digitsIn] at hc
        rw [Option.mem_def.mp hc] at hnext
        simpa using hnext
  obtain ⟨rest, hrest, hdigits, hzero⟩ := hwhole
  have hdrop : cs.drop whole.length = rest := by rw [hrest, List.drop_left]
  have hbeyond : Beyond cs rest := ⟨whole, hrest, fun c hc => plain_of_isDigit (hdigits c hc)⟩
  have hend : At all depth (exponentPart (fractionPart rest).2).2 :=
    hv.at.beyond (((hsign.trans hbeyond).trans (fractionPart_beyond rest)).trans
      (exponentPart_beyond _))
  rw [hdrop]
  split
  · exact spared_malformed
  dsimp only
  split
  · rename_i hinteger
    obtain ⟨hfraction, hexponent⟩ := hinteger
    rw [fractionPart_nil hfraction] at hexponent hend ⊢
    rw [if_neg (c := exceeds unlimited.digits whole.length = true) Bool.false_ne_true]
    split
    · rename_i hl
      obtain ⟨used, hall, hused, hawaits⟩ := hv
      rw [hrest] at hall
      exact (spared_ok _ hend).limited (.digits (.mk hall (congrArg Lexed.mode hused) hawaits hs
        hdigits hzero ⟨hfraction, hexponent⟩) hl)
    · exact spared_ok _ hend
  · exact spared_ok _ hend

/-- The readers of values agree for a number of turns. Lists and objects are read on from inside
of them. -/
structure SparedFor (limits : Limits) (all : List Char) (turns : Nat) : Prop where
  values : ∀ depth cs, ValueAt all depth cs →
    Spared limits all depth (value limits turns depth cs) (value unlimited turns depth cs)
  items : ∀ depth earlier cs, ValueAt all (depth + 1) cs →
    Spared limits all depth (items limits turns (depth + 1) earlier cs)
      (items unlimited turns (depth + 1) earlier cs)
  entries : ∀ depth earlier cs, At all (depth + 1) cs →
    Spared limits all depth (entries limits turns (depth + 1) earlier cs)
      (entries unlimited turns (depth + 1) earlier cs)

variable {turns : Nat}

theorem spared_bracket (ha : At all (depth + 1) cs) (h : Spared limits all depth x y) :
    Spared limits all depth
      (if exceeds limits.depth (depth + 1) then .error .tooDeep else x)
      (if exceeds unlimited.depth (depth + 1) then .error .tooDeep else y) := by
  rw [if_neg (c := exceeds unlimited.depth (depth + 1) = true) Bool.false_ne_true]
  split
  · exact h.limited (.nesting ha ‹_›)
  · exact h

theorem SparedFor.value_succ (h : SparedFor limits all turns) (hv : ValueAt all depth cs) :
    Spared limits all depth (value limits (turns + 1) depth cs)
      (value unlimited (turns + 1) depth cs) := by
  cases cs with
  | nil => exact spared_malformed
  | cons c cs =>
    rw [value, value]
    split
    · rename_i hc
      subst hc
      exact (spared_text hv.at).bind fun a rest hrest => spared_ok _ hrest
    split
    · rename_i hc
      subst hc
      refine spared_bracket (hv.at.opened rfl) ?_
      have hitem : ValueAt all (depth + 1) (skipSpace cs) := hv.at.value rfl rfl
      revert hitem
      generalize skipSpace cs = ds
      intro hitem
      split
      · exact spared_ok _ (hitem.at.closed rfl)
      · exact h.items _ _ _ hitem
    split
    · rename_i hc
      subst hc
      refine spared_bracket (hv.at.opened rfl) ?_
      have hentry : At all (depth + 1) (skipSpace cs) := (hv.at.opened rfl).space
      revert hentry
      generalize skipSpace cs = ds
      intro hentry
      split
      · exact spared_ok _ (hentry.closed rfl)
      · exact h.entries _ _ _ hentry
    split
    · rename_i found hname
      exact spared_ok _ (hv.at.beyond (name_beyond hname))
    split
    · rename_i hc
      subst hc
      exact spared_number true hv (.inr rfl)
    · exact spared_number false hv (.inl rfl)

theorem SparedFor.items_succ (h : SparedFor limits all turns) (earlier : List Value)
    (hv : ValueAt all (depth + 1) cs) :
    Spared limits all depth (Json.items limits (turns + 1) (depth + 1) earlier cs)
      (Json.items unlimited (turns + 1) (depth + 1) earlier cs) := by
  rw [Json.items, Json.items]
  refine (h.values _ cs hv).bind fun v rest hrest => ?_
  dsimp only
  have hnext := hrest.space
  revert hnext
  generalize skipSpace rest = ds
  intro hnext
  split
  · exact spared_ok _ (hnext.closed rfl)
  · exact h.items _ _ _ (hnext.value rfl rfl)
  · exact spared_malformed

theorem SparedFor.entries_succ (h : SparedFor limits all turns)
    (earlier : List (LooseText × Value)) (ha : At all (depth + 1) cs) :
    Spared limits all depth (Json.entries limits (turns + 1) (depth + 1) earlier cs)
      (Json.entries unlimited (turns + 1) (depth + 1) earlier cs) := by
  rw [Json.entries.eq_def, Json.entries.eq_def]
  dsimp only
  split
  · refine (spared_text ha).bind fun key rest hrest => ?_
    dsimp only
    have hcolon := hrest.space
    revert hcolon
    generalize skipSpace rest = ds
    intro hcolon
    split
    · refine (h.values _ _ (hcolon.value rfl rfl)).bind fun v rest hrest => ?_
      dsimp only
      have hnext := hrest.space
      revert hnext
      generalize skipSpace rest = es
      intro hnext
      split
      · exact spared_ok _ (hnext.closed rfl)
      · exact h.entries _ _ _ (hnext.plain rfl).space
      · exact spared_malformed
    · exact spared_malformed
  · exact spared_malformed

theorem sparedFor (limits : Limits) (all : List Char) (turns : Nat) :
    SparedFor limits all turns := by
  induction turns with
  | zero =>
    refine ⟨fun depth cs _ => ?_, fun depth earlier cs _ => ?_, fun depth earlier cs _ => ?_⟩
    · rw [value, value]
      exact spared_malformed
    · rw [items, items]
      exact spared_malformed
    · rw [entries, entries]
      exact spared_malformed
  | succ turns ih =>
    exact ⟨fun _ _ => ih.value_succ, fun _ earlier _ => ih.items_succ earlier,
      fun _ earlier _ => ih.entries_succ earlier⟩

theorem read_spared (cs : List Char) (limits : Limits) :
    read cs limits = read cs unlimited ∨ ∃ e, read cs limits = .error e ∧ Exceeded limits cs e := by
  have h := (sparedFor limits cs (2 * cs.length + 2)).values 0 _ (valueAt_start cs)
  rw [read, read]
  rcases h.agrees with hv | ⟨e, hv, he⟩
  · rw [hv]
    exact Or.inl rfl
  · rw [hv]
    exact Or.inr ⟨e, rfl, he⟩

theorem read_unlimited_error {e : Failure} (h : read cs unlimited = .error e) :
    e = .malformed := by
  have hv := (sparedFor {} cs (2 * cs.length + 2)).values 0 _ (valueAt_start cs)
  rw [read] at h
  cases hy : value unlimited (2 * cs.length + 2) 0 (skipSpace cs) with
  | error f =>
    rw [hy] at h
    cases h
    exact hv.malformed e hy
  | ok p =>
    rw [hy] at h
    change (if skipSpace p.2 = [] then Except.ok p.1 else .error .malformed) = .error e at h
    split at h
    · cases h
    · cases h
      rfl

end TrafficIndicator.Json
