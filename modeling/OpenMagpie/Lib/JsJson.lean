import OpenMagpie.Lib.Js

/-!
# JSON in JavaScript

* `Token`, `LexState`, `lex`: the tokens of a text, read by an automaton. A run of letters, digits,
  signs and points is one word: in JSON no two of them touch.
* `Frame`, `State`, `State.step`: the containers under construction, and what is expected next.
* `parse`, `Engine.stringify`: `JSON.parse`, none for a `SyntaxError`, and `JSON.stringify`.
* `Value.Parsed`: numbers are rounded, and the keys of an object are distinct; **`parsed_of_parse`**.
-/

set_option autoImplicit false

namespace Js

/-! ## Tokens -/

inductive Token
  | openBracket
  | closeBracket
  | openBrace
  | closeBrace
  | colon
  | comma
  | str (s : Str)
  | scalar (v : Value)

/-- The token that a word is. -/
def wordToken (w : Str) : Option Token :=
  if w = ofString "null" then some (.scalar .null)
  else if w = ofString "true" then some (.scalar (.bool true))
  else if w = ofString "false" then some (.scalar (.bool false))
  else (numeral w).map fun q => .scalar (.num (.ofRat q))

/-- Between tokens, in a word, in a string, behind a backslash of it, or among the hexadecimal digits
of an escape, with the number of those to come. What has been read is reversed. -/
inductive LexState
  | start
  | word (w : Str)
  | text (s : Str)
  | escape (s : Str)
  | hex (s : Str) (left value : ℕ)

/-- Letters, digits, signs and the point. -/
def isWordUnit (c : ℕ) : Bool :=
  isDigit c || (0x61 ≤ c && c ≤ 0x7A) || (0x41 ≤ c && c ≤ 0x5A) || c = 0x2B || c = 0x2D || c = 0x2E

def hexDigit (c : ℕ) : Option ℕ :=
  if isDigit c then some (c - 0x30)
  else if 0x61 ≤ c ∧ c ≤ 0x66 then some (c - 0x61 + 10)
  else if 0x41 ≤ c ∧ c ≤ 0x46 then some (c - 0x41 + 10)
  else none

/-- The code unit of a short escape. -/
def unescape (c : ℕ) : Option ℕ :=
  [(0x22, 0x22), (0x5C, 0x5C), (0x2F, 0x2F), (0x62, 8), (0x66, 12), (0x6E, 10), (0x72, 13),
    (0x74, 9)].lookup c

/-- A code unit between tokens. -/
def startStep (c : ℕ) : Option (LexState × List Token) :=
  if c = 9 ∨ c = 10 ∨ c = 13 ∨ c = 32 then some (.start, [])
  else if c = 0x5B then some (.start, [.openBracket])
  else if c = 0x5D then some (.start, [.closeBracket])
  else if c = 0x7B then some (.start, [.openBrace])
  else if c = 0x7D then some (.start, [.closeBrace])
  else if c = 0x3A then some (.start, [.colon])
  else if c = 0x2C then some (.start, [.comma])
  else if c = 0x22 then some (.text [], [])
  else if isWordUnit c then some (.word [c], [])
  else none

/-- A code unit, with the tokens that end before it or with it. -/
def LexState.step : LexState → ℕ → Option (LexState × List Token)
  | start, c => startStep c
  | word w, c =>
    if isWordUnit c then some (word (c :: w), [])
    else (wordToken w.reverse).bind fun token =>
      (startStep c).map fun p => (p.1, token :: p.2)
  | text s, c =>
    if c = 0x22 then some (start, [.str s.reverse])
    else if c = 0x5C then some (escape s, [])
    else if c < 32 then none
    else some (text (c :: s), [])
  | escape s, c => if c = 0x75 then some (hex s 3 0, []) else (unescape c).map fun d => (text (d :: s), [])
  | hex s left value, c => (hexDigit c).map fun d =>
    match left with
    | 0 => (text ((16 * value + d) :: s), [])
    | left + 1 => (hex s left (16 * value + d), [])

/-- The end of the text. -/
def LexState.finish : LexState → Option (List Token)
  | start => some []
  | word w => (wordToken w.reverse).map ([·])
  | _ => none

/-- The tokens of the rest of a text. -/
def lex : LexState → Str → Option (List Token)
  | state, [] => state.finish
  | state, c :: s => (state.step c).bind fun p => (lex p.1 s).map (p.2 ++ ·)

/-! ## The parser -/

/-- A container under construction: an array, or an object with the key whose value is next. -/
inductive Frame
  | elements (xs : List Value)
  | member (kvs : List (Str × Value)) (k : Str)

/-- What is expected: a value, the first element of an array, a key of an object, the colon behind it,
or what follows a value. -/
inductive State
  | value (stack : List Frame)
  | first (stack : List Frame)
  | key (stack : List Frame) (kvs : List (Str × Value)) (isFirst : Bool)
  | colon (stack : List Frame) (kvs : List (Str × Value)) (k : Str)
  | after (stack : List Frame) (v : Value)

/-- A property that is added, or whose value is replaced. -/
def setKey (k : Str) (v : Value) : List (Str × Value) → List (Str × Value)
  | [] => [(k, v)]
  | (k', w) :: kvs => if k' = k then (k, v) :: kvs else (k', w) :: setKey k v kvs

/-- The beginning of a value. -/
def State.begin (stack : List Frame) : Token → Option State
  | .scalar v => some (after stack v)
  | .str s => some (after stack (.str s))
  | .openBracket => some (first stack)
  | .openBrace => some (key stack [] true)
  | _ => none

def State.step : State → Token → Option State
  | value stack, token => State.begin stack token
  | first stack, .closeBracket => some (after stack (.arr []))
  | first stack, token => State.begin (.elements [] :: stack) token
  | key stack kvs _, .str k => some (colon stack kvs k)
  | key stack kvs true, .closeBrace => some (after stack (.obj kvs))
  | colon stack kvs k, .colon => some (value (.member kvs k :: stack))
  | after (.elements xs :: stack) v, .comma => some (value (.elements (xs ++ [v]) :: stack))
  | after (.elements xs :: stack) v, .closeBracket => some (after stack (.arr (xs ++ [v])))
  | after (.member kvs k :: stack) v, .comma => some (key stack (setKey k v kvs) false)
  | after (.member kvs k :: stack) v, .closeBrace => some (after stack (.obj (setKey k v kvs)))
  | _, _ => none

/-- The value of a finished text. -/
def State.result : State → Option Value
  | after [] v => some v
  | _ => none

/-- `JSON.parse`. -/
def parse (s : Str) : Option Value := do
  let tokens ← lex .start s
  let state ← tokens.foldlM State.step (.value [])
  state.result

/-! ## The serializer -/

def isHighSurrogate (c : ℕ) : Bool := 0xD800 ≤ c && c ≤ 0xDBFF

def isLowSurrogate (c : ℕ) : Bool := 0xDC00 ≤ c && c ≤ 0xDFFF

/-- A hexadecimal digit. -/
def hexUnit (d : ℕ) : ℕ := if d < 10 then 0x30 + d else 0x61 + (d - 10)

/-- A code unit in a string of JSON, unless it is a half of a surrogate pair. -/
def quoteUnit (c : ℕ) : Str :=
  if c = 8 then [0x5C, 0x62]
  else if c = 9 then [0x5C, 0x74]
  else if c = 10 then [0x5C, 0x6E]
  else if c = 12 then [0x5C, 0x66]
  else if c = 13 then [0x5C, 0x72]
  else if c = 0x22 ∨ c = 0x5C then [0x5C, c]
  else if c < 32 ∨ isHighSurrogate c ∨ isLowSurrogate c then
    [0x5C, 0x75, hexUnit (c / 16 ^ 3 % 16), hexUnit (c / 16 ^ 2 % 16), hexUnit (c / 16 % 16),
      hexUnit (c % 16)]
  else [c]

def quoteUnits : Str → Str
  | [] => []
  | [c] => quoteUnit c
  | c :: d :: s =>
    if isHighSurrogate c ∧ isLowSurrogate d then c :: d :: quoteUnits s
    else quoteUnit c ++ quoteUnits (d :: s)

def quote (s : Str) : Str := 0x22 :: (quoteUnits s ++ [0x22])

namespace Engine

variable (E : Engine)

mutual

/-- `JSON.stringify`. -/
def stringify : Value → Str
  | .null => ofString "null"
  | .bool b => ofString (if b then "true" else "false")
  | .num (.finite q) => E.numberText q
  | .num _ => ofString "null"
  | .str s => quote s
  | .arr xs => 0x5B :: (List.intercalate [0x2C] (stringifyElements xs) ++ [0x5D])
  | .obj kvs =>
    let members := (ownOrder (stringifyMembers kvs)).map fun (k, text) => quote k ++ 0x3A :: text
    0x7B :: (List.intercalate [0x2C] members ++ [0x7D])

def stringifyElements : List Value → List Str
  | [] => []
  | x :: xs => stringify x :: stringifyElements xs

def stringifyMembers : List (Str × Value) → List (Str × Str)
  | [] => []
  | (k, x) :: kvs => (k, stringify x) :: stringifyMembers kvs

end

end Engine

/-! ## What is parsed -/

/-- A value of `JSON.parse`: its numbers are rounded, and the keys of an object are distinct. -/
inductive Value.Parsed : Value → Prop
  | null : Parsed .null
  | bool {b : Bool} : Parsed (.bool b)
  | num {q : ℚ} : Parsed (.num (.ofRat q))
  | str {s : Str} : Parsed (.str s)
  | arr {xs : List Value} (hxs : ∀ x ∈ xs, Parsed x) : Parsed (.arr xs)
  | obj {kvs : List (Str × Value)} (hkeys : (kvs.map (·.1)).Nodup) (hkvs : ∀ p ∈ kvs, Parsed p.2) :
    Parsed (.obj kvs)

/-- A token that stands for a value of `JSON.parse`, or for none. -/
def Token.Parsed : Token → Prop
  | .scalar v => v.Parsed
  | _ => True

theorem parsed_wordToken {w : Str} {t : Token} (h : wordToken w = some t) : t.Parsed := by
  unfold wordToken at h
  split_ifs at h
  · exact Option.some.inj h ▸ .null
  · exact Option.some.inj h ▸ .bool
  · exact Option.some.inj h ▸ .bool
  · obtain ⟨q, -, rfl⟩ := Option.map_eq_some_iff.mp h
    exact .num

theorem parsed_startStep {c : ℕ} {state : LexState} {tokens : List Token}
    (h : startStep c = some (state, tokens)) : ∀ t ∈ tokens, t.Parsed := by
  unfold startStep at h
  split_ifs at h <;> cases h <;> simp [Token.Parsed]

theorem LexState.parsed_step {c : ℕ} {state state' : LexState} {tokens : List Token}
    (h : state.step c = some (state', tokens)) : ∀ t ∈ tokens, t.Parsed := by
  cases state with
  | start => exact parsed_startStep h
  | word w =>
    dsimp only [LexState.step] at h
    split_ifs at h
    · cases h
      simp
    · obtain ⟨token, htoken, h⟩ := Option.bind_eq_some_iff.mp h
      obtain ⟨p, hstart, h⟩ := Option.map_eq_some_iff.mp h
      cases h
      exact List.forall_mem_cons.mpr ⟨parsed_wordToken htoken, parsed_startStep hstart⟩
  | text s =>
    dsimp only [LexState.step] at h
    split_ifs at h <;> cases h <;> simp [Token.Parsed]
  | escape s =>
    dsimp only [LexState.step] at h
    split_ifs at h
    · cases h
      simp
    · obtain ⟨d, -, h⟩ := Option.map_eq_some_iff.mp h
      cases h
      simp
  | hex s left value =>
    obtain ⟨d, -, h⟩ := Option.map_eq_some_iff.mp h
    cases left <;> cases h <;> simp

theorem parsed_lex {s : Str} {state : LexState} {tokens : List Token}
    (h : lex state s = some tokens) : ∀ t ∈ tokens, t.Parsed := by
  induction s generalizing state tokens with
  | nil =>
    cases state with
    | start =>
      cases h
      simp
    | word w =>
      obtain ⟨token, htoken, rfl⟩ := Option.map_eq_some_iff.mp h
      exact List.forall_mem_singleton.mpr (parsed_wordToken htoken)
    | _ => cases h
  | cons c s ih =>
    rw [lex] at h
    obtain ⟨p, hstep, h⟩ := Option.bind_eq_some_iff.mp h
    obtain ⟨rest, hrest, rfl⟩ := Option.map_eq_some_iff.mp h
    exact List.forall_mem_append.mpr ⟨LexState.parsed_step hstep, ih hrest⟩

/-! ### The containers -/

theorem mem_setKey {k : Str} {v : Value} {kvs : List (Str × Value)} {p : Str × Value}
    (h : p ∈ setKey k v kvs) : p = (k, v) ∨ p ∈ kvs := by
  induction kvs with
  | nil => exact .inl (List.mem_singleton.mp h)
  | cons q kvs ih =>
    unfold setKey at h
    split_ifs at h
    · rcases List.mem_cons.mp h with rfl | h
      · exact .inl rfl
      · exact .inr (List.mem_cons_of_mem _ h)
    · rcases List.mem_cons.mp h with rfl | h
      · exact .inr List.mem_cons_self
      · exact (ih h).imp_right (List.mem_cons_of_mem _)

theorem setKey_keys {k : Str} {v : Value} {kvs : List (Str × Value)} :
    (setKey k v kvs).map (·.1) = if k ∈ kvs.map (·.1) then kvs.map (·.1) else kvs.map (·.1) ++ [k] := by
  induction kvs with
  | nil => rfl
  | cons q kvs ih =>
    unfold setKey
    split_ifs with hq hmem hmem
    · simp [hq]
    · exact absurd (by simp [hq]) hmem
    · have hk : k ∈ kvs.map (·.1) := by
        simpa [Ne.symm hq] using hmem
      simp [ih, hk]
    · have hk : k ∉ kvs.map (·.1) := fun hk => hmem (List.mem_cons_of_mem _ hk)
      simp [ih, hk]

/-- The properties of an object of `JSON.parse`. -/
def ParsedMembers (kvs : List (Str × Value)) : Prop :=
  (kvs.map (·.1)).Nodup ∧ ∀ p ∈ kvs, p.2.Parsed

theorem ParsedMembers.setKey {k : Str} {v : Value} {kvs : List (Str × Value)}
    (h : ParsedMembers kvs) (hv : v.Parsed) : ParsedMembers (setKey k v kvs) := by
  constructor
  · rw [setKey_keys]
    split_ifs with hk
    · exact h.1
    · exact (List.perm_append_singleton k _).nodup_iff.mpr (List.nodup_cons.mpr ⟨hk, h.1⟩)
  · intro p hp
    rcases mem_setKey hp with rfl | hp
    · exact hv
    · exact h.2 p hp

def Frame.Parsed : Frame → Prop
  | .elements xs => ∀ x ∈ xs, x.Parsed
  | .member kvs _ => ParsedMembers kvs

def State.Parsed : State → Prop
  | .value stack | .first stack => ∀ f ∈ stack, f.Parsed
  | .key stack kvs _ | .colon stack kvs _ => (∀ f ∈ stack, f.Parsed) ∧ ParsedMembers kvs
  | .after stack v => (∀ f ∈ stack, f.Parsed) ∧ v.Parsed

theorem Frame.parsed_elements_nil : (Frame.elements []).Parsed := by
  intro x hx
  cases hx

theorem State.parsed_begin {stack : List Frame} {token : Token} {state : State}
    (hs : ∀ f ∈ stack, f.Parsed) (ht : token.Parsed) (h : State.begin stack token = some state) :
    state.Parsed := by
  cases token <;> cases h
  · exact hs
  · exact ⟨hs, List.nodup_nil, List.forall_mem_nil _⟩
  · exact ⟨hs, .str⟩
  · exact ⟨hs, ht⟩

/-- **A token keeps what has been parsed well-formed.** -/
theorem State.parsed_step {state state' : State} {token : Token} (hs : state.Parsed)
    (ht : token.Parsed) (h : state.step token = some state') : state'.Parsed := by
  unfold State.step at h
  split at h
  · exact parsed_begin hs ht h
  · cases h
    exact ⟨hs, .arr (List.forall_mem_nil _)⟩
  · exact parsed_begin (List.forall_mem_cons.mpr ⟨Frame.parsed_elements_nil, hs⟩) ht h
  · cases h
    exact hs
  · cases h
    exact ⟨hs.1, .obj hs.2.1 hs.2.2⟩
  · cases h
    exact List.forall_mem_cons.mpr ⟨hs.2, hs.1⟩
  · next xs stack v =>
    cases h
    obtain ⟨hxs, hstack⟩ := List.forall_mem_cons.mp hs.1
    exact List.forall_mem_cons.mpr
      ⟨List.forall_mem_append.mpr ⟨hxs, List.forall_mem_singleton.mpr hs.2⟩, hstack⟩
  · next xs stack v =>
    cases h
    obtain ⟨hxs, hstack⟩ := List.forall_mem_cons.mp hs.1
    exact ⟨hstack, .arr (List.forall_mem_append.mpr ⟨hxs, List.forall_mem_singleton.mpr hs.2⟩)⟩
  · next kvs k stack v =>
    cases h
    obtain ⟨hkvs, hstack⟩ := List.forall_mem_cons.mp hs.1
    exact ⟨hstack, ParsedMembers.setKey hkvs hs.2⟩
  · next kvs k stack v =>
    cases h
    obtain ⟨hkvs, hstack⟩ := List.forall_mem_cons.mp hs.1
    have hnew := ParsedMembers.setKey hkvs (k := k) hs.2
    exact ⟨hstack, .obj hnew.1 hnew.2⟩
  · cases h

/-- **What `JSON.parse` returns is well-formed.** -/
theorem parsed_of_parse {s : Str} {v : Value} (h : parse s = some v) : v.Parsed := by
  obtain ⟨tokens, hlex, h⟩ := Option.bind_eq_some_iff.mp h
  obtain ⟨state, hfold, h⟩ := Option.bind_eq_some_iff.mp h
  have hstate : state.Parsed := by
    have hrun {tokens : List Token} {state₀ : State} (ht : ∀ t ∈ tokens, t.Parsed)
        (hs : state₀.Parsed) (h : tokens.foldlM State.step state₀ = some state) : state.Parsed := by
      induction tokens generalizing state₀ with
      | nil => exact Option.some.inj h ▸ hs
      | cons token tokens ih =>
        rw [List.foldlM_cons] at h
        obtain ⟨state₁, hstep, h⟩ := Option.bind_eq_some_iff.mp h
        exact ih (fun t h => ht t (List.mem_cons_of_mem _ h))
          (State.parsed_step hs (ht token List.mem_cons_self) hstep) h
    have hstart : (State.value []).Parsed := by
      intro f hf
      cases hf
    exact hrun (parsed_lex hlex) hstart hfold
  cases state with
  | after stack w =>
    cases stack with
    | nil => exact Option.some.inj h ▸ hstate.2
    | cons f stack => cases h
  | _ => cases h

end Js
