import OpenMagpie.Lib.JsJson
import OpenMagpie.Lib.JsUnits
import OpenMagpie.Lib.Table

/-!
# The round trip of JSON

* `Value.normal`: a value as its JSON text shows it: an infinite number is null, and the properties of
  an object are in the order of its keys.
* `Value.tokens`: the tokens of that text.
* `lex_stringify`, `foldlM_tokens`: the text has these tokens, and they are read as the value.
* **`parse_stringify`**: a value that was parsed comes back from its text, in that normal form.
-/

set_option autoImplicit false

namespace Js

/-! ## Values and their tokens -/

/-- Induction over a value and its parts. -/
theorem Value.ind {P : Value → Prop} (hnull : P .null) (hbool : ∀ b, P (.bool b))
    (hnum : ∀ x, P (.num x)) (hstr : ∀ s, P (.str s))
    (harr : ∀ xs, (∀ x ∈ xs, P x) → P (.arr xs))
    (hobj : ∀ kvs, (∀ p ∈ kvs, P p.2) → P (.obj kvs)) (v : Value) : P v :=
  @Value.rec P (fun xs => ∀ x ∈ xs, P x) (fun kvs => ∀ p ∈ kvs, P p.2) (fun p => P p.2)
    hnull hbool hnum hstr harr hobj
    (List.forall_mem_nil _) (fun _ _ hx hxs => List.forall_mem_cons.mpr ⟨hx, hxs⟩)
    (List.forall_mem_nil _) (fun _ _ hp hkvs => List.forall_mem_cons.mpr ⟨hp, hkvs⟩)
    (fun _ _ hv => hv) v

mutual

/-- A value as its JSON text shows it. -/
def Value.normal : Value → Value
  | .num (.finite q) => .num (.finite q)
  | .num _ => .null
  | .arr xs => .arr (normals xs)
  | .obj kvs => .obj (ownOrder (normalMembers kvs))
  | v => v

def normals : List Value → List Value
  | [] => []
  | x :: xs => x.normal :: normals xs

def normalMembers : List (Str × Value) → List (Str × Value)
  | [] => []
  | (k, x) :: kvs => (k, x.normal) :: normalMembers kvs

end

mutual

/-- The tokens of a value's text. -/
def Value.tokens : Value → List Token
  | .str s => [.str s]
  | .num (.finite q) => [.scalar (.num (.finite q))]
  | .num _ => [.scalar .null]
  | .arr xs => .openBracket :: (List.intercalate [.comma] (tokenLists xs) ++ [.closeBracket])
  | .obj kvs =>
    let members := (ownOrder (memberTokens kvs)).map fun p => .str p.1 :: .colon :: p.2
    .openBrace :: (List.intercalate [.comma] members ++ [.closeBrace])
  | v => [.scalar v]

def tokenLists : List Value → List (List Token)
  | [] => []
  | x :: xs => x.tokens :: tokenLists xs

def memberTokens : List (Str × Value) → List (Str × List Token)
  | [] => []
  | (k, x) :: kvs => (k, x.tokens) :: memberTokens kvs

end

theorem normals_eq {xs : List Value} : normals xs = xs.map Value.normal := by
  induction xs with
  | nil => rfl
  | cons x xs ih => rw [normals, ih, List.map_cons]

theorem normalMembers_eq {kvs : List (Str × Value)} :
    normalMembers kvs = kvs.map fun p => (p.1, p.2.normal) := by
  induction kvs with
  | nil => rfl
  | cons p kvs ih => rw [normalMembers, ih, List.map_cons]

theorem tokenLists_eq {xs : List Value} : tokenLists xs = xs.map Value.tokens := by
  induction xs with
  | nil => rfl
  | cons x xs ih => rw [tokenLists, ih, List.map_cons]

theorem memberTokens_eq {kvs : List (Str × Value)} :
    memberTokens kvs = kvs.map fun p => (p.1, p.2.tokens) := by
  induction kvs with
  | nil => rfl
  | cons p kvs ih => rw [memberTokens, ih, List.map_cons]

/-- The order of the keys does not depend on the values. -/
theorem ownOrder_map {α β : Type} {f : α → β} {kvs : List (Str × α)} :
    ownOrder (kvs.map fun p => (p.1, f p.2)) = (ownOrder kvs).map fun p => (p.1, f p.2) := by
  unfold ownOrder
  rw [List.map_append, List.filter_map, List.filter_map,
    List.map_mergeSort (s := fun p q : Str × β =>
      decide ((elementIndex p.1).getD 0 ≤ (elementIndex q.1).getD 0))]
  · rfl
  · intros
    rfl

/-- A list with separators in between. -/
theorem intercalate_cons {α : Type} {sep : α} {x : List α} {xs : List (List α)} :
    List.intercalate [sep] (x :: xs) = x ++ xs.flatMap (sep :: ·) := by
  induction xs generalizing x with
  | nil => simp
  | cons y ys ih =>
    rw [List.intercalate_cons_cons, ih, List.flatMap_cons, List.append_assoc]
    rfl

/-! ## Words -/

/-- Nothing of the word before goes on here. -/
def EndsWord (rest : Str) : Prop := ∀ c ∈ rest.head?, isWordUnit c = false

/-- A code unit that ends no token. -/
theorem lex_silent {state state' : LexState} {c : ℕ} {s : Str}
    (h : state.step c = some (state', [])) : lex state (c :: s) = lex state' s := by
  rw [lex, h, Option.bind_some]
  exact Option.map_id'

/-- A code unit that ends a token. -/
theorem lex_emit {state state' : LexState} {c : ℕ} {s : Str} {token : Token}
    (h : state.step c = some (state', [token])) :
    lex state (c :: s) = (lex state' s).map (token :: ·) := by
  rw [lex, h, Option.bind_some]
  rfl

/-- The end of a word. -/
theorem lex_word_end {w rest : Str} (h : EndsWord rest) : lex (.word w) rest =
    (wordToken w.reverse).bind fun token => (lex .start rest).map (token :: ·) := by
  cases rest with
  | nil =>
    rw [lex, lex, LexState.finish, LexState.finish]
    cases wordToken w.reverse <;> rfl
  | cons c rest =>
    have hc : ¬ isWordUnit c := Bool.eq_false_iff.mp (h c rfl)
    rw [lex, lex, LexState.step, LexState.step, if_neg hc]
    cases wordToken w.reverse with
    | none => rfl
    | some token =>
      cases startStep c with
      | none => rfl
      | some p => simp only [Option.bind_some, Option.map_some, Option.map_map]; rfl

/-- A word in front of a text. -/
theorem lex_word {u w rest : Str} (hu : ∀ c ∈ u, isWordUnit c) (h : EndsWord rest) :
    lex (.word w) (u ++ rest) =
      (wordToken (w.reverse ++ u)).bind fun token => (lex .start rest).map (token :: ·) := by
  induction u generalizing w with
  | nil => rw [List.nil_append, List.append_nil, lex_word_end h]
  | cons c u ih =>
    obtain ⟨hc, hu⟩ := List.forall_mem_cons.mp hu
    have hstep : (LexState.word w).step c = some (.word (c :: w), []) := if_pos hc
    rw [List.cons_append, lex_silent hstep, ih hu]
    simp

theorem startStep_word {c : ℕ} (h : isWordUnit c) : startStep c = some (.word [c], []) := by
  have hrange : isDigit c ∨ (0x61 ≤ c ∧ c ≤ 0x7A) ∨ (0x41 ≤ c ∧ c ≤ 0x5A) ∨ c = 0x2B ∨ c = 0x2D ∨
      c = 0x2E := by
    simpa [isWordUnit, or_assoc] using h
  simp only [isDigit, Bool.and_eq_true, decide_eq_true_eq] at hrange
  unfold startStep
  rw [if_neg (by omega), if_neg (by omega), if_neg (by omega), if_neg (by omega), if_neg (by omega),
    if_neg (by omega), if_neg (by omega), if_neg (by omega), if_pos h]

/-- **A word is one token.** -/
theorem lex_start_word {w rest : Str} {token : Token} (hw : ∀ c ∈ w, isWordUnit c)
    (ht : wordToken w = some token) (h : EndsWord rest) :
    lex .start (w ++ rest) = (lex .start rest).map (token :: ·) := by
  cases w with
  | nil => cases ht
  | cons c w =>
    obtain ⟨hc, hw⟩ := List.forall_mem_cons.mp hw
    have hstep : LexState.start.step c = some (.word [c], []) := startStep_word hc
    rw [List.cons_append, lex_silent hstep, lex_word hw h, List.reverse_singleton,
      List.singleton_append, ht]
    rfl

/-! ## Strings -/

theorem hexDigit_hexUnit {d : ℕ} (h : d < 16) : hexDigit (hexUnit d) = some d := by
  interval_cases d <;> rfl

/-- A hexadecimal digit before the last one. -/
theorem lex_hex {s rest : Str} {left value d : ℕ} (hd : d < 16) :
    lex (.hex s (left + 1) value) (hexUnit d :: rest) = lex (.hex s left (16 * value + d)) rest :=
  lex_silent (by rw [LexState.step, hexDigit_hexUnit hd]; rfl)

/-- The last hexadecimal digit. -/
theorem lex_hex_last {s rest : Str} {value d : ℕ} (hd : d < 16) :
    lex (.hex s 0 value) (hexUnit d :: rest) = lex (.text ((16 * value + d) :: s)) rest :=
  lex_silent (by rw [LexState.step, hexDigit_hexUnit hd]; rfl)

/-- A code unit that stands for itself. -/
theorem lex_plain {c : ℕ} {s rest : Str} (hquote : c ≠ 0x22) (hslash : c ≠ 0x5C) (hc : ¬ c < 32) :
    lex (.text s) (c :: rest) = lex (.text (c :: s)) rest :=
  lex_silent (by rw [LexState.step, if_neg hquote, if_neg hslash, if_neg hc])

/-- **A code unit of a string.** -/
theorem lex_quoteUnit {c : ℕ} {s rest : Str} :
    lex (.text s) (quoteUnit c ++ rest) = lex (.text (c :: s)) rest := by
  unfold quoteUnit
  split_ifs with h8 h9 h10 h12 h13 hquote hcontrol
  · subst h8
    exact (lex_silent rfl).trans (lex_silent rfl)
  · subst h9
    exact (lex_silent rfl).trans (lex_silent rfl)
  · subst h10
    exact (lex_silent rfl).trans (lex_silent rfl)
  · subst h12
    exact (lex_silent rfl).trans (lex_silent rfl)
  · subst h13
    exact (lex_silent rfl).trans (lex_silent rfl)
  · rcases hquote with rfl | rfl
    · exact (lex_silent rfl).trans (lex_silent rfl)
    · exact (lex_silent rfl).trans (lex_silent rfl)
  · have hlt : c < 16 ^ 4 := by
      simp only [isHighSurrogate, isLowSurrogate, Bool.and_eq_true, decide_eq_true_eq] at hcontrol
      omega
    have hvalue : 16 * (16 * (16 * (16 * 0 + c / 16 ^ 3 % 16) + c / 16 ^ 2 % 16) + c / 16 % 16) +
        c % 16 = c := by
      omega
    calc lex (.text s) (0x5C :: 0x75 :: hexUnit (c / 16 ^ 3 % 16) :: hexUnit (c / 16 ^ 2 % 16) ::
          hexUnit (c / 16 % 16) :: hexUnit (c % 16) :: rest)
      _ = lex (.hex s 3 0) (hexUnit (c / 16 ^ 3 % 16) :: hexUnit (c / 16 ^ 2 % 16) ::
          hexUnit (c / 16 % 16) :: hexUnit (c % 16) :: rest) := (lex_silent rfl).trans (lex_silent rfl)
      _ = lex (.text (c :: s)) rest := by
        rw [lex_hex (by omega), lex_hex (by omega), lex_hex (by omega), lex_hex_last (by omega),
          hvalue]
  · obtain ⟨h1, h2⟩ := not_or.mp hquote
    exact lex_plain h1 h2 fun h => hcontrol (.inl h)

/-- **A quoted string is one token.** -/
theorem lex_quoteUnits {t s rest : Str} : lex (.text s) (quoteUnits t ++ 0x22 :: rest) =
    (lex .start rest).map (.str (s.reverse ++ t) :: ·) := by
  induction t using quoteUnits.induct generalizing s with
  | case1 =>
    rw [List.append_nil]
    exact lex_emit rfl
  | case2 c =>
    rw [quoteUnits, lex_quoteUnit, lex_emit rfl, List.reverse_cons]
  | case3 c d t h ih =>
    simp only [isHighSurrogate, isLowSurrogate, Bool.and_eq_true, decide_eq_true_eq] at h
    rw [quoteUnits, if_pos (by simpa [isHighSurrogate, isLowSurrogate] using h), List.cons_append,
      List.cons_append, lex_plain (by omega) (by omega) (by omega),
      lex_plain (by omega) (by omega) (by omega), ih]
    simp
  | case4 c d t h ih =>
    rw [quoteUnits, if_neg h, List.append_assoc, lex_quoteUnit, ih]
    simp

theorem lex_quote {t rest : Str} : lex .start (quote t ++ rest) =
    (lex .start rest).map (.str t :: ·) := by
  rw [quote, List.cons_append, lex_silent rfl, List.append_assoc, List.singleton_append,
    lex_quoteUnits]
  rfl

/-! ## The text of a value -/

theorem stringifyElements_eq (E : Engine) {xs : List Value} :
    E.stringifyElements xs = xs.map E.stringify := by
  induction xs with
  | nil => rfl
  | cons x xs ih => rw [Engine.stringifyElements, ih, List.map_cons]

theorem stringifyMembers_eq (E : Engine) {kvs : List (Str × Value)} :
    E.stringifyMembers kvs = kvs.map fun p => (p.1, E.stringify p.2) := by
  induction kvs with
  | nil => rfl
  | cons p kvs ih => rw [Engine.stringifyMembers, ih, List.map_cons]

theorem isWordUnit_of_isDigit {c : ℕ} (h : isDigit c) : isWordUnit c := by
  simp [isWordUnit, h]

theorem isWordUnit_of_signed {w ds : Str} {negative : Bool} (h : signed w = (negative, ds))
    (hds : ∀ c ∈ ds, isWordUnit c) : ∀ c ∈ w, isWordUnit c := by
  unfold signed at h
  split at h
  · cases h
    exact List.forall_mem_cons.mpr ⟨rfl, hds⟩
  · cases h
    exact List.forall_mem_cons.mpr ⟨rfl, hds⟩
  · cases h
    exact hds

theorem isWordUnit_of_exponent {w : Str} {e : ℤ} (h : exponent w = some e) :
    ∀ c ∈ w, isWordUnit c := by
  cases w with
  | nil => exact List.forall_mem_nil _
  | cons c w =>
    cases hs : signed w with
    | mk negative ds =>
      simp only [exponent, hs] at h
      split_ifs at h with hcond
      all_goals
        obtain ⟨hc, -, hds⟩ := hcond
        have hw := isWordUnit_of_signed hs fun c hc =>
          isWordUnit_of_isDigit (List.all_eq_true.mp hds c hc)
        refine List.forall_mem_cons.mpr ⟨?_, hw⟩
        rcases hc with rfl | rfl <;> rfl

theorem isWordUnit_of_fraction {w frac rest : Str} (h : fraction w = some (frac, rest))
    (hrest : ∀ c ∈ rest, isWordUnit c) : ∀ c ∈ w, isWordUnit c := by
  unfold fraction at h
  split at h
  · next w =>
    split_ifs at h
    cases h
    refine List.forall_mem_cons.mpr ⟨rfl, ?_⟩
    rw [← List.takeWhile_append_dropWhile (p := isDigit) (l := w)]
    exact List.forall_mem_append.mpr
      ⟨fun c hc => isWordUnit_of_isDigit (List.mem_takeWhile_imp hc), hrest⟩
  · cases h
    exact hrest

theorem isWordUnit_of_magnitude {w : Str} {q : ℚ} (h : magnitude w = some q) :
    ∀ c ∈ w, isWordUnit c := by
  unfold magnitude at h
  dsimp only at h
  split_ifs at h
  obtain ⟨⟨frac, rest⟩, hfrac, h⟩ := Option.bind_eq_some_iff.mp h
  obtain ⟨e, hexp, -⟩ := Option.bind_eq_some_iff.mp h
  rw [← List.takeWhile_append_dropWhile (p := isDigit) (l := w)]
  exact List.forall_mem_append.mpr ⟨fun c hc => isWordUnit_of_isDigit (List.mem_takeWhile_imp hc),
    isWordUnit_of_fraction hfrac (isWordUnit_of_exponent hexp)⟩

/-- A numeral is a word. -/
theorem isWordUnit_of_numeral {w : Str} {q : ℚ} (h : numeral w = some q) : ∀ c ∈ w, isWordUnit c := by
  unfold numeral at h
  split at h
  · obtain ⟨m, hm, -⟩ := Option.map_eq_some_iff.mp h
    exact List.forall_mem_cons.mpr ⟨rfl, isWordUnit_of_magnitude hm⟩
  · exact isWordUnit_of_magnitude h

theorem wordToken_of_numeral {w : Str} {q : ℚ} (h : numeral w = some q) :
    wordToken w = some (.scalar (.num (.ofRat q))) := by
  unfold wordToken
  split_ifs with hnull htrue hfalse
  · subst hnull
    cases h
  · subst htrue
    cases h
  · subst hfalse
    cases h
  · rw [h, Option.map_some]

/-- The text has these tokens, wherever it stands. -/
def Lexes (text : Str) (tokens : List Token) : Prop :=
  ∀ rest, EndsWord rest → lex .start (text ++ rest) = (lex .start rest).map (tokens ++ ·)

theorem lexes_word {w : Str} {token : Token} (hw : ∀ c ∈ w, isWordUnit c)
    (ht : wordToken w = some token) : Lexes w [token] :=
  fun _ h => lex_start_word hw ht h

theorem lexes_separated {items : List (Str × List Token)} (h : ∀ p ∈ items, Lexes p.1 p.2)
    {close : ℕ} {token : Token} (hclose : startStep close = some (.start, [token]))
    (hword : isWordUnit close = false) (rest : Str) :
    lex .start (items.flatMap (fun p => 0x2C :: p.1) ++ close :: rest) =
        (lex .start rest).map (items.flatMap (fun p => .comma :: p.2) ++ token :: ·) ∧
      EndsWord (items.flatMap (fun p => 0x2C :: p.1) ++ close :: rest) := by
  induction items with
  | nil =>
    have hstep : LexState.start.step close = some (.start, [token]) := hclose
    exact ⟨lex_emit hstep, fun c hc => Option.some.inj hc ▸ hword⟩
  | cons p items ih =>
    obtain ⟨hp, hitems⟩ := List.forall_mem_cons.mp h
    obtain ⟨hlex, hend⟩ := ih hitems
    constructor
    · rw [List.flatMap_cons, List.append_assoc, List.cons_append, lex_emit rfl, hp _ hend, hlex]
      simp [Function.comp_def]
    · intro c hc
      obtain rfl := Option.some.inj hc
      rfl

/-- A list in brackets. -/
theorem lexes_list (items : List (Str × List Token)) (h : ∀ p ∈ items, Lexes p.1 p.2)
    {opener close : ℕ} {before after : Token} (hopen : startStep opener = some (.start, [before]))
    (hclose : startStep close = some (.start, [after])) (hword : isWordUnit close = false) :
    Lexes (opener :: (List.intercalate [0x2C] (items.map (·.1)) ++ [close]))
      (before :: (List.intercalate [.comma] (items.map (·.2)) ++ [after])) := by
  intro rest _
  have hstep : LexState.start.step opener = some (.start, [before]) := hopen
  rw [List.cons_append, lex_emit hstep, List.append_assoc, List.singleton_append]
  cases items with
  | nil =>
    have hstep : LexState.start.step close = some (.start, [after]) := hclose
    rw [List.map_nil, List.intercalate_nil, List.nil_append, lex_emit hstep]
    simp [Function.comp_def]
  | cons p items =>
    obtain ⟨hp, hitems⟩ := List.forall_mem_cons.mp h
    obtain ⟨hlex, hend⟩ := lexes_separated hitems hclose hword rest
    rw [List.map_cons, List.map_cons, intercalate_cons, intercalate_cons, List.append_assoc,
      List.flatMap_map, List.flatMap_map, hp _ hend, hlex]
    simp [Function.comp_def]

/-- **The text of a value has the tokens of the value.** -/
theorem lexes_stringify (E : Engine) {v : Value} (hv : v.Parsed) : Lexes (E.stringify v) v.tokens := by
  induction v using Value.ind with
  | hnull =>
    have hw : ∀ c ∈ ofString "null", isWordUnit c := by decide
    exact lexes_word hw rfl
  | hbool b =>
    have hw : ∀ b : Bool, ∀ c ∈ ofString (if b then "true" else "false"), isWordUnit c := by decide
    cases b
    · exact lexes_word (hw false) rfl
    · exact lexes_word (hw true) rfl
  | hnum x =>
    cases hv with
    | @num q =>
      cases hx : Number.ofRat q with
      | nan => exact absurd hx Number.ofRat_ne_nan
      | infinity negative =>
        have hw : ∀ c ∈ ofString "null", isWordUnit c := by decide
        exact lexes_word hw rfl
      | finite r =>
        obtain ⟨s, hs, hround⟩ := E.reads_numberText r (Number.ofRat_ofRat hx)
        have ht := wordToken_of_numeral hs
        rw [hround] at ht
        exact lexes_word (isWordUnit_of_numeral hs) ht
  | hstr s => exact fun _ _ => lex_quote
  | harr xs ih =>
    cases hv with
    | arr hxs =>
      have hitems : ∀ p ∈ xs.map fun x => (E.stringify x, x.tokens), Lexes p.1 p.2 := by
        intro p hp
        obtain ⟨x, hx, rfl⟩ := List.mem_map.mp hp
        exact ih x hx (hxs x hx)
      have hopen : startStep 0x5B = some (.start, [.openBracket]) := rfl
      have hclose : startStep 0x5D = some (.start, [.closeBracket]) := rfl
      have hlist := lexes_list _ hitems hopen hclose rfl
      rw [List.map_map, List.map_map] at hlist
      rw [Engine.stringify, Value.tokens, stringifyElements_eq, tokenLists_eq]
      exact hlist
  | hobj kvs ih =>
    cases hv with
    | obj hkeys hkvs =>
      have hitems : ∀ p ∈ (ownOrder kvs).map fun p =>
          (quote p.1 ++ 0x3A :: E.stringify p.2, Token.str p.1 :: .colon :: p.2.tokens),
          Lexes p.1 p.2 := by
        intro p hp
        obtain ⟨p, hmem, rfl⟩ := List.mem_map.mp hp
        have hp := ownOrder_perm.mem_iff.mp hmem
        intro rest hrest
        rw [List.append_assoc, List.cons_append, lex_quote, lex_emit rfl,
          ih p hp (hkvs p hp) rest hrest]
        simp [Function.comp_def]
      have hopen : startStep 0x7B = some (.start, [.openBrace]) := rfl
      have hclose : startStep 0x7D = some (.start, [.closeBrace]) := rfl
      have hlist := lexes_list _ hitems hopen hclose rfl
      rw [List.map_map, List.map_map] at hlist
      rw [Engine.stringify, Value.tokens, stringifyMembers_eq, memberTokens_eq, ownOrder_map,
        ownOrder_map, List.map_map, List.map_map]
      exact hlist

/-! ## The parser -/

theorem run_cons {state state' : State} {token : Token} {tokens : List Token}
    (h : state.step token = some state') :
    (token :: tokens).foldlM State.step state = tokens.foldlM State.step state' := by
  rw [List.foldlM_cons, h]
  rfl

/-- Tokens that are read as this value. -/
def Reads (tokens : List Token) (v : Value) : Prop :=
  ∀ stack rest, (tokens ++ rest).foldlM State.step (.value stack) =
    rest.foldlM State.step (.after stack v)

/-- The first element of an array is read as any other one. -/
theorem Reads.first {v w : Value} (h : Reads v.tokens w) {stack : List Frame} {rest : List Token} :
    (v.tokens ++ rest).foldlM State.step (.first stack) =
      rest.foldlM State.step (.after (.elements [] :: stack) w) := by
  have hbegin {token : Token} {tokens : List Token} (ht : token ≠ .closeBracket) :
      (token :: tokens).foldlM State.step (.first stack) =
        (token :: tokens).foldlM State.step (.value (.elements [] :: stack)) := by
    rw [List.foldlM_cons, List.foldlM_cons]
    cases token <;> first | rfl | exact absurd rfl ht
  rw [← h (.elements [] :: stack)]
  cases v with
  | num x => cases x <;> exact hbegin nofun
  | _ => exact hbegin nofun

theorem reads_elements {xs : List Value} (h : ∀ x ∈ xs, Reads x.tokens x.normal) {ys : List Value}
    {v : Value} {stack : List Frame} {rest : List Token} :
    (xs.flatMap (fun x => .comma :: x.tokens) ++ .closeBracket :: rest).foldlM State.step
        (.after (.elements ys :: stack) v) =
      rest.foldlM State.step (.after stack (.arr (ys ++ v :: xs.map Value.normal))) := by
  induction xs generalizing ys v with
  | nil => exact run_cons rfl
  | cons x xs ih =>
    obtain ⟨hx, hxs⟩ := List.forall_mem_cons.mp h
    rw [List.flatMap_cons, List.append_assoc, List.cons_append, run_cons rfl, hx, ih hxs]
    simp

theorem setKey_of_not_mem {k : Str} {v : Value} {kvs : List (Str × Value)}
    (h : k ∉ kvs.map (·.1)) : setKey k v kvs = kvs ++ [(k, v)] := by
  induction kvs with
  | nil => rfl
  | cons p kvs ih =>
    rw [List.map_cons, List.mem_cons, not_or] at h
    rw [setKey, if_neg (Ne.symm h.1), ih h.2, List.cons_append]

theorem reads_members {ps : List (Str × Value)} (h : ∀ p ∈ ps, Reads p.2.tokens p.2.normal)
    {kvs : List (Str × Value)} {k : Str} {v : Value} {stack : List Frame} {rest : List Token}
    (hkeys : ((kvs ++ (k, v) :: ps).map (·.1)).Nodup) :
    (ps.flatMap (fun p => .comma :: .str p.1 :: .colon :: p.2.tokens) ++
        .closeBrace :: rest).foldlM State.step (.after (.member kvs k :: stack) v) =
      rest.foldlM State.step
        (.after stack (.obj (kvs ++ (k, v) :: ps.map fun p => (p.1, p.2.normal)))) := by
  have hk : setKey k v kvs = kvs ++ [(k, v)] := by
    refine setKey_of_not_mem fun hmem => ?_
    rw [List.map_append, List.nodup_append] at hkeys
    exact hkeys.2.2 k hmem k List.mem_cons_self rfl
  induction ps generalizing kvs k v with
  | nil =>
    rw [List.flatMap_nil, List.nil_append, run_cons rfl, hk, List.map_nil]
  | cons p ps ih =>
    obtain ⟨hp, hps⟩ := List.forall_mem_cons.mp h
    have hkeys' : ((kvs ++ [(k, v)] ++ (p.1, p.2.normal) :: ps).map (·.1)).Nodup := by
      simpa using hkeys
    have hp' : setKey p.1 p.2.normal (kvs ++ [(k, v)]) = kvs ++ [(k, v)] ++ [(p.1, p.2.normal)] := by
      refine setKey_of_not_mem fun hmem => ?_
      rw [List.map_append, List.nodup_append] at hkeys'
      exact hkeys'.2.2 p.1 hmem p.1 List.mem_cons_self rfl
    rw [List.flatMap_cons, List.append_assoc, List.cons_append, run_cons rfl, List.cons_append,
      run_cons rfl, List.cons_append, run_cons rfl, hp, hk, ih hps hkeys' hp']
    simp

/-- **The tokens of a value are read as its normal form.** -/
theorem reads_tokens {v : Value} (hv : v.Parsed) : Reads v.tokens v.normal := by
  induction v using Value.ind with
  | hnull => exact fun _ _ => run_cons rfl
  | hbool b => exact fun _ _ => run_cons rfl
  | hnum x => cases x <;> exact fun _ _ => run_cons rfl
  | hstr s => exact fun _ _ => run_cons rfl
  | harr xs ih =>
    cases hv with
    | arr hxs =>
      intro stack rest
      have hparts : ∀ x ∈ xs, Reads x.tokens x.normal := fun x hx => ih x hx (hxs x hx)
      rw [Value.tokens, Value.normal, tokenLists_eq, normals_eq, List.cons_append, run_cons rfl,
        List.append_assoc, List.singleton_append]
      cases xs with
      | nil => exact run_cons rfl
      | cons x xs =>
        obtain ⟨hx, hxs⟩ := List.forall_mem_cons.mp hparts
        rw [List.map_cons, intercalate_cons, List.append_assoc, hx.first, List.flatMap_map,
          reads_elements hxs]
        simp
  | hobj kvs ih =>
    cases hv with
    | obj hkeys hkvs =>
      intro stack rest
      have hperm : (ownOrder kvs).Perm kvs := ownOrder_perm
      have hparts : ∀ p ∈ ownOrder kvs, Reads p.2.tokens p.2.normal := by
        intro p hp
        have hp := hperm.mem_iff.mp hp
        exact ih p hp (hkvs p hp)
      have hnodup : ((ownOrder kvs).map (·.1)).Nodup := (hperm.map _).nodup_iff.mpr hkeys
      rw [Value.tokens, Value.normal, memberTokens_eq, normalMembers_eq, ownOrder_map, ownOrder_map,
        List.map_map, List.cons_append, run_cons rfl, List.append_assoc, List.singleton_append]
      cases hsorted : ownOrder kvs with
      | nil => exact run_cons rfl
      | cons p ps =>
        rw [hsorted] at hparts hnodup
        obtain ⟨hp, hps⟩ := List.forall_mem_cons.mp hparts
        have hkeys' : ((([] : List (Str × Value)) ++ (p.1, p.2.normal) :: ps).map (·.1)).Nodup :=
          hnodup
        rw [List.map_cons, intercalate_cons, List.append_assoc, List.flatMap_map, Function.comp_apply,
          List.cons_append, run_cons rfl, List.cons_append, run_cons rfl, hp]
        exact reads_members hps hkeys'

/-- **A value that was parsed comes back from its text.** -/
theorem parse_stringify (E : Engine) {v : Value} (hv : v.Parsed) :
    parse (E.stringify v) = some v.normal := by
  have hlex : lex .start (E.stringify v) = some v.tokens := by
    have h := lexes_stringify E hv [] nofun
    rw [List.append_nil, lex, LexState.finish] at h
    simpa using h
  have hread := reads_tokens hv [] []
  rw [List.append_nil] at hread
  rw [parse, hlex]
  change (v.tokens.foldlM State.step (.value [])).bind State.result = _
  rw [hread]
  rfl

/-! ## Properties of the normal form -/

/-- The properties of the normal form of an object. -/
def shownMembers (kvs : List (Str × Value)) : List (Str × Value) :=
  (ownOrder kvs).map fun p => (p.1, p.2.normal)

theorem normal_obj {kvs : List (Str × Value)} : (Value.obj kvs).normal = .obj (shownMembers kvs) := by
  rw [Value.normal, normalMembers_eq, ownOrder_map, shownMembers]

/-- An object without index keys is shown as it is, if its values are. -/
theorem normal_obj_eq_self {kvs : List (Str × Value)}
    (hkeys : ∀ k ∈ kvs.map (·.1), elementIndex k = none) (h : ∀ p ∈ kvs, p.2.normal = p.2) :
    (Value.obj kvs).normal = .obj kvs := by
  rw [normal_obj, shownMembers, ownOrder_eq_self hkeys]
  congr 1
  conv_rhs => rw [← List.map_id kvs]
  exact List.map_congr_left fun p hp => Prod.ext rfl (h p hp)

/-- An object and its text have the same keys. -/
theorem mem_keys_shownMembers {kvs : List (Str × Value)} {k : Str} :
    k ∈ (shownMembers kvs).map (·.1) ↔ k ∈ kvs.map (·.1) := by
  have hkeys : (shownMembers kvs).map (·.1) = (ownOrder kvs).map (·.1) := by
    rw [shownMembers, List.map_map]
    rfl
  rw [hkeys]
  exact (ownOrder_perm.map _).mem_iff

/-- Under a key stands what was there, in normal form. -/
theorem lookup_shownMembers {kvs : List (Str × Value)} (hkeys : (kvs.map (·.1)).Nodup) {k : Str} :
    (shownMembers kvs).lookup k = (kvs.lookup k).map Value.normal := by
  have hmap (l : List (Str × Value)) :
      (l.map fun p => (p.1, p.2.normal)).lookup k = (l.lookup k).map Value.normal := by
    induction l with
    | nil => rfl
    | cons p l ih =>
      rw [List.map_cons, List.lookup_cons, List.lookup_cons, ih]
      cases k == p.1 <;> rfl
  have horder : (ownOrder kvs).lookup k = kvs.lookup k := by
    have hnodup : ((ownOrder kvs).map (·.1)).Nodup := (ownOrder_perm.map _).nodup_iff.mpr hkeys
    have hmem {l : List (Str × Value)} {v : Value} (h : l.lookup k = some v) : (k, v) ∈ l := by
      obtain ⟨l₁, l₂, rfl, -⟩ := List.lookup_eq_some_iff.mp h
      simp
    refine Option.ext fun v => ⟨fun h => ?_, fun h => ?_⟩
    · exact Table.lookup_of_mem hkeys (ownOrder_perm.mem_iff.mp (hmem h))
    · exact Table.lookup_of_mem hnodup (ownOrder_perm.mem_iff.mpr (hmem h))
  rw [shownMembers, hmap, horder]

end Js
