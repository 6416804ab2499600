import Secureblue.Py.Json

/-! JSON documents: writing any value (`json.dumps`) and reading any text (`json.loads`).

    A number is kept as its literal, and the members of an object in their order, repeated keys
    included. The reader is bounded by the length of the text, which it never reaches (`loads_fuel`); what
    the writer makes of a value without numbers is read as that value (`loads_dumps`). -/

namespace Py.Json

/-! ### Reading -/

/-- What `json.loads` may do but return: it raises `JSONDecodeError`, or comes upon a lone surrogate,
    a character for Python that no `Text` has. -/
inductive Failure where | decodeError | surrogate
  deriving DecidableEq

/-- A part of a document, with the text that follows. -/
abbrev Scan (α : Type) := Text → Except Failure (α × Text)

/-- `WHITESPACE` -/
def isWhitespace (c : Char) : Bool := decide (c = ' ' ∨ c = '\t' ∨ c = '\n' ∨ c = '\r')

def skipWhitespace (s : Text) : Text := s.dropWhile isWhitespace

/-- `[0-9A-Fa-f]` -/
def hexVal (c : Char) : Option ℕ :=
  if '0' ≤ c ∧ c ≤ '9' then some (c.toNat - 48)
  else if 'a' ≤ c ∧ c ≤ 'f' then some (c.toNat - 87)
  else if 'A' ≤ c ∧ c ≤ 'F' then some (c.toNat - 55)
  else none

/-- `BACKSLASH` -/
def unescape (c : Char) : Option ℕ :=
  if c = '"' ∨ c = '\\' ∨ c = '/' then some c.toNat
  else if c = 'b' then some 8
  else if c = 'f' then some 12
  else if c = 'n' then some 10
  else if c = 'r' then some 13
  else if c = 't' then some 9
  else none

/-- Where the scanner of a string is: among plain characters, behind a backslash, or in an escape `\uXXXX`
    with as many digits to come. -/
inductive Mode where
  | plain
  | backslash
  | hex (digits value : ℕ)

/-- The codes up to the closing quote, surrogates of escapes among them. -/
def scanCodes : Mode → Text → Option (List ℕ × Text)
  | _, [] => none
  | .plain, c :: s =>
    if c = '"' then some ([], s)
    else if c = '\\' then scanCodes .backslash s
    else if c.toNat < 32 then none
    else (scanCodes .plain s).map (Prod.map (c.toNat :: ·) id)
  | .backslash, c :: s =>
    if c = 'u' then scanCodes (.hex 4 0) s
    else (unescape c).bind fun n => (scanCodes .plain s).map (Prod.map (n :: ·) id)
  | .hex digits value, c :: s => (hexVal c).bind fun n =>
    if digits ≤ 1 then (scanCodes .plain s).map (Prod.map ((value * 16 + n) :: ·) id)
    else scanCodes (.hex (digits - 1) (value * 16 + n)) s

def isSurrogate (n : ℕ) : Bool := decide (0xd800 ≤ n ∧ n < 0xe000)

/-- The characters of codes: two surrogates, a high one first, make one. -/
def joinSurrogates : List ℕ → Option Text
  | [] => some []
  | [n] => if isSurrogate n then none else some [Char.ofNat n]
  | n :: m :: codes =>
    if ¬ isSurrogate n then (joinSurrogates (m :: codes)).map (Char.ofNat n :: ·)
    else if n < 0xdc00 ∧ 0xdc00 ≤ m ∧ m < 0xe000 then
      (joinSurrogates codes).map (Char.ofNat (0x10000 + (n - 0xd800) * 1024 + (m - 0xdc00)) :: ·)
    else none

/-- `scanstring`, behind the opening quote -/
def scanString : Scan Text := fun s =>
  match scanCodes .plain s with
  | none => .error .decodeError
  | some (codes, rest) =>
    match joinSurrogates codes with
    | none => .error .surrogate
    | some text => .ok (text, rest)

/-- `(\.\d+)?` -/
def scanFraction : Text → Text × Text
  | '.' :: s => if (s.span Char.isDigit).1 = [] then ([], '.' :: s) else (s.span Char.isDigit).map ('.' :: ·) id
  | s => ([], s)

/-- `[-+]?` -/
def scanSign : Text → Text × Text
  | '-' :: s => (['-'], s)
  | '+' :: s => (['+'], s)
  | s => ([], s)

/-- `([eE][-+]?\d+)?` -/
def scanExponent : Text → Text × Text
  | [] => ([], [])
  | c :: s =>
    let (sign, behind) := scanSign s
    let (digits, rest) := behind.span Char.isDigit
    if (c = 'e' ∨ c = 'E') ∧ digits ≠ [] then (c :: sign ++ digits, rest) else ([], c :: s)

/-- `(-?(?:0|[1-9]\d*))` -/
def scanInteger (s : Text) : Option (Text × Text) :=
  let (minus, behind) := if startsWith s ['-'] then (['-'], s.tail) else ([], s)
  match behind with
  | [] => none
  | c :: rest =>
    if c = '0' then some (minus ++ ['0'], rest)
    else if '1' ≤ c ∧ c ≤ '9' then some ((behind.span Char.isDigit).map (minus ++ ·) id)
    else none

/-- `NUMBER_RE` -/
def scanNumber (s : Text) : Option (Text × Text) := do
  let (integer, s) ← scanInteger s
  let (fraction, s) := scanFraction s
  let (exponent, s) := scanExponent s
  return (integer ++ fraction ++ exponent, s)

/-- The words that stand for values. -/
def constants : List (Text × Value Text) :=
  [("null", .null), ("true", .bool true), ("false", .bool false), ("NaN", .number "NaN"),
    ("Infinity", .number "Infinity"), ("-Infinity", .number "-Infinity")]

/-- A number, or a word. -/
def scanLiteral : Scan (Value Text) := fun s =>
  match scanNumber s, constants.find? (startsWith s ·.1) with
  | some (literal, rest), _ => .ok (.number literal, rest)
  | none, some (word, v) => .ok (v, s.drop word.length)
  | none, none => .error .decodeError

mutual

/-- `scan_once` -/
def scanValue : ℕ → Scan (Value Text)
  | 0, _ => .error .decodeError
  | _ + 1, [] => .error .decodeError
  | fuel + 1, c :: s =>
    if c = '"' then (scanString s).map (Prod.map .string id)
    else if c = '{' then scanObject fuel (skipWhitespace s)
    else if c = '[' then scanArray fuel (skipWhitespace s)
    else scanLiteral (c :: s)

/-- `JSONObject` -/
def scanObject : ℕ → Scan (Value Text)
  | 0, _ => .error .decodeError
  | _ + 1, [] => .error .decodeError
  | fuel + 1, c :: s =>
    if c = '}' then .ok (.object [], s)
    else (scanMembers fuel (c :: s)).map (Prod.map .object id)

/-- The members of an object, up to its end. -/
def scanMembers : ℕ → Scan (List (Text × Value Text))
  | 0, _ => .error .decodeError
  | _ + 1, [] => .error .decodeError
  | fuel + 1, c :: s =>
    if c ≠ '"' then .error .decodeError
    else do
      let (key, s) ← scanString s
      if ¬ startsWith (skipWhitespace s) [':'] then .error .decodeError
      else do
        let (v, s) ← scanValue fuel (skipWhitespace (skipWhitespace s).tail)
        if startsWith (skipWhitespace s) ['}'] then .ok ([(key, v)], (skipWhitespace s).tail)
        else if startsWith (skipWhitespace s) [','] then
          (scanMembers fuel (skipWhitespace (skipWhitespace s).tail)).map (Prod.map ((key, v) :: ·) id)
        else .error .decodeError

/-- `JSONArray` -/
def scanArray : ℕ → Scan (Value Text)
  | 0, _ => .error .decodeError
  | fuel + 1, s =>
    if startsWith s [']'] then .ok (.array [], s.tail)
    else (scanElems fuel s).map (Prod.map .array id)

/-- The elements of an array, up to its end. -/
def scanElems : ℕ → Scan (List (Value Text))
  | 0, _ => .error .decodeError
  | fuel + 1, s => do
    let (v, s) ← scanValue fuel s
    if startsWith (skipWhitespace s) [']'] then .ok ([v], (skipWhitespace s).tail)
    else if startsWith (skipWhitespace s) [','] then
      (scanElems fuel (skipWhitespace (skipWhitespace s).tail)).map (Prod.map (v :: ·) id)
    else .error .decodeError

end

/-- `json.loads`, with a bound on the steps. -/
def loadsWith (fuel : ℕ) (s : Text) : Except Failure (Value Text) := do
  if startsWith s [Char.ofNat 0xfeff] then .error .decodeError
  else do
    let (v, rest) ← scanValue fuel (skipWhitespace s)
    if skipWhitespace rest = [] then .ok v else .error .decodeError

/-- `json.loads`. Every value takes at most three steps and at least one character. -/
def loads (s : Text) : Except Failure (Value Text) := loadsWith (3 * s.length + 1) s

/-! ### Writing -/

/-- The line end in front of an element, with `indent` given; without it a document has one line. -/
def newline (indent : Option ℕ) (level : ℕ) : Text :=
  match indent with
  | none => []
  | some n => '\n' :: List.replicate (n * level) ' '

/-- What stands between two elements. -/
def separator (indent : Option ℕ) (level : ℕ) : Text :=
  match indent with
  | none => [',', ' ']
  | some _ => ',' :: newline indent level

mutual

/-- A value at a level of nesting. -/
def dumpsAt (indent : Option ℕ) : ℕ → Value Text → Text
  | _, .null => "null"
  | _, .bool true => "true"
  | _, .bool false => "false"
  | _, .number literal => literal
  | _, .string s => dumpsString s
  | level, .array elems =>
    if elems = [] then "[]"
    else '[' :: (newline indent (level + 1) ++ dumpsElems indent (level + 1) elems ++ newline indent level ++ [']'])
  | level, .object members =>
    if members = [] then "{}"
    else '{' :: (newline indent (level + 1) ++ dumpsMembers indent (level + 1) members ++
      newline indent level ++ ['}'])

def dumpsElems (indent : Option ℕ) : ℕ → List (Value Text) → Text
  | _, [] => []
  | level, [v] => dumpsAt indent level v
  | level, v :: w :: elems => dumpsAt indent level v ++ separator indent level ++ dumpsElems indent level (w :: elems)

def dumpsMembers (indent : Option ℕ) : ℕ → List (Text × Value Text) → Text
  | _, [] => []
  | level, [(key, v)] => dumpsString key ++ ": " ++ dumpsAt indent level v
  | level, (key, v) :: m :: members =>
    dumpsString key ++ ": " ++ dumpsAt indent level v ++ separator indent level ++
      dumpsMembers indent level (m :: members)

end

/-- `json.dumps(v)`, or `json.dumps(v, indent=n)` -/
def dumps (indent : Option ℕ) (v : Value Text) : Text := dumpsAt indent 0 v

/-! ### Strings -/

/-- The codes by which a character is written. -/
def codes (c : Char) : List ℕ :=
  if c.toNat < 0x10000 then [c.toNat]
  else [0xd800 + (c.toNat - 0x10000) / 1024, 0xdc00 + (c.toNat - 0x10000) % 1024]

theorem hexVal_hexDigit : ∀ {n : ℕ}, n < 16 → hexVal (hexDigit n) = some n := by
  decide

theorem scanCodes_unicodeEscape {n : ℕ} (hn : n < 0x10000) (s : Text) :
    scanCodes .plain (unicodeEscape n ++ s) = (scanCodes .plain s).map (Prod.map (n :: ·) id) := by
  have hdigits : ((n / 4096 % 16 * 16 + n / 256 % 16) * 16 + n / 16 % 16) * 16 + n % 16 = n := by omega
  simp [unicodeEscape, scanCodes, hexVal_hexDigit (Nat.mod_lt _ (by decide : 0 < 16)), hdigits]

theorem scanCodes_escape (c : Char) (s : Text) :
    scanCodes .plain (escape c ++ s) = (scanCodes .plain s).map (Prod.map (codes c ++ ·) id) := by
  have hsmall : c.toNat < 0x10000 → codes c = [c.toNat] := fun h => if_pos h
  unfold escape
  dsimp only
  split
  · next h => subst h; rfl
  split
  · next h => subst h; rfl
  split
  · next h => subst h; rfl
  split
  · next h => subst h; rfl
  split
  · next h => subst h; rfl
  split
  · next h => simp [scanCodes, unescape, hsmall (by omega), h]
  split
  · next h => simp [scanCodes, unescape, hsmall (by omega), h]
  split
  · next hquote hbackslash _ _ _ _ _ h =>
    simp [scanCodes, hquote, hbackslash, hsmall (by omega), show ¬ c.toNat < 32 by omega]
  split
  · next h => rw [scanCodes_unicodeEscape h, hsmall h]; rfl
  · next h =>
    have hmax : c.toNat < 0x110000 := by
      have := c.valid
      rcases this with h | h <;> simp only [Char.toNat] <;> omega
    rw [List.append_assoc, scanCodes_unicodeEscape (by omega), scanCodes_unicodeEscape (by omega), codes, if_neg h,
      Option.map_map]
    rfl

theorem joinSurrogates_codes (c : Char) (l : List ℕ) :
    joinSurrogates (codes c ++ l) = (joinSurrogates l).map (c :: ·) := by
  have hvalid : c.toNat < 0xd800 ∨ 0xdfff < c.toNat ∧ c.toNat < 0x110000 := c.valid
  unfold codes
  split
  · have hplain : isSurrogate c.toNat = false := by
      unfold isSurrogate
      rw [decide_eq_false_iff_not]
      omega
    cases l with
    | nil => simp [joinSurrogates, hplain, Char.ofNat_toNat]
    | cons n l => simp [joinSurrogates, hplain, Char.ofNat_toNat]
  · next h =>
    have hhigh : isSurrogate (0xd800 + (c.toNat - 0x10000) / 1024) = true := by
      unfold isSurrogate
      rw [decide_eq_true_iff]
      omega
    have hpair : 0xd800 + (c.toNat - 0x10000) / 1024 < 0xdc00 ∧
        0xdc00 ≤ 0xdc00 + (c.toNat - 0x10000) % 1024 ∧ 0xdc00 + (c.toNat - 0x10000) % 1024 < 0xe000 := by
      omega
    have hcode : 0x10000 + (0xd800 + (c.toNat - 0x10000) / 1024 - 0xd800) * 1024 +
        (0xdc00 + (c.toNat - 0x10000) % 1024 - 0xdc00) = c.toNat := by
      omega
    rw [List.cons_append, List.cons_append, List.nil_append, joinSurrogates, if_neg (by simp [hhigh]), if_pos hpair,
      hcode, Char.ofNat_toNat]

/-- A string is read back behind its opening quote. -/
theorem scanString_escape (s rest : Text) : scanString (s.flatMap escape ++ '"' :: rest) = .ok (s, rest) := by
  have hcodes : ∀ s : Text, scanCodes .plain (s.flatMap escape ++ '"' :: rest) = some (s.flatMap codes, rest) := by
    intro s
    induction s with
    | nil => rfl
    | cons c s ih =>
      rw [List.flatMap_cons, List.append_assoc, scanCodes_escape, ih]
      rfl
  have hjoin : joinSurrogates (s.flatMap codes) = some s := by
    induction s with
    | nil => rfl
    | cons c s ih =>
      rw [List.flatMap_cons, joinSurrogates_codes, ih]
      rfl
  rw [scanString, hcodes]
  simp only [hjoin]

/-- A string is written in printable ASCII. -/
theorem printable_escape {c d : Char} (h : d ∈ escape c) : 32 ≤ d.toNat ∧ d.toNat < 127 := by
  have hdigit : ∀ n, n < 16 → 32 ≤ (hexDigit n).toNat ∧ (hexDigit n).toNat < 127 := by decide
  have hunicode : ∀ n, ∀ d ∈ unicodeEscape n, 32 ≤ d.toNat ∧ d.toNat < 127 := by
    intro n d hd
    have hmod : ∀ k, k % 16 < 16 := fun k => Nat.mod_lt k (by decide)
    simp only [unicodeEscape, List.mem_cons, List.not_mem_nil, or_false] at hd
    rcases hd with rfl | rfl | rfl | rfl | rfl | rfl
    · decide
    · decide
    all_goals exact hdigit _ (hmod _)
  have hshort : ∀ e : Char, (32 ≤ e.toNat ∧ e.toNat < 127) → d ∈ ['\\', e] → 32 ≤ d.toNat ∧ d.toNat < 127 := by
    intro e he hd
    rcases List.mem_pair.mp hd with rfl | rfl
    · decide
    · exact he
  unfold escape at h
  dsimp only at h
  split at h
  · exact hshort _ (by decide) h
  split at h
  · exact hshort _ (by decide) h
  split at h
  · exact hshort _ (by decide) h
  split at h
  · exact hshort _ (by decide) h
  split at h
  · exact hshort _ (by decide) h
  split at h
  · exact hshort _ (by decide) h
  split at h
  · exact hshort _ (by decide) h
  split at h
  · next hprintable => exact List.mem_singleton.mp h ▸ hprintable
  split at h
  · exact hunicode _ d h
  · exact (List.mem_append.mp h).elim (hunicode _ d) (hunicode _ d)

theorem printable_dumpsString {s : Text} {c : Char} (h : c ∈ dumpsString s) : 32 ≤ c.toNat ∧ c.toNat < 127 := by
  rw [dumpsString, List.cons_append, List.mem_cons, List.mem_append, List.mem_flatMap, List.mem_singleton] at h
  rcases h with rfl | ⟨d, -, hd⟩ | rfl
  · decide
  · exact printable_escape hd
  · decide

/-! ### Reading what was written -/

/-- No number is in the value. -/
inductive NoNumber : Value Text → Prop where
  | null : NoNumber .null
  | bool (b : Bool) : NoNumber (.bool b)
  | string (s : Text) : NoNumber (.string s)
  | array {elems : List (Value Text)} (h : ∀ v ∈ elems, NoNumber v) : NoNumber (.array elems)
  | object {members : List (Text × Value Text)} (h : ∀ m ∈ members, NoNumber m.2) : NoNumber (.object members)

theorem skipWhitespace_cons {c : Char} (hc : isWhitespace c = false) (s : Text) :
    skipWhitespace (c :: s) = c :: s := by
  simp [skipWhitespace, hc]

theorem skipWhitespace_newline (indent : Option ℕ) (level : ℕ) (s : Text) :
    skipWhitespace (newline indent level ++ s) = skipWhitespace s := by
  have hspaces : ∀ k, skipWhitespace (List.replicate k ' ' ++ s) = skipWhitespace s := by
    intro k
    induction k with
    | zero => rfl
    | succ k ih => exact ih
  cases indent with
  | none => rfl
  | some n => exact hspaces (n * level)

theorem separator_eq (indent : Option ℕ) (level : ℕ) :
    ∃ ws, separator indent level = ',' :: ws ∧ ∀ s, skipWhitespace (ws ++ s) = skipWhitespace s := by
  cases indent with
  | none => exact ⟨[' '], rfl, fun s => rfl⟩
  | some n => exact ⟨newline (some n) level, rfl, fun s => skipWhitespace_newline _ _ s⟩

/-- The text of a value begins with none of the characters that the reader looks for before one. -/
def Opens (s : Text) : Prop :=
  ∃ c t, s = c :: t ∧ isWhitespace c = false ∧ c ≠ ']' ∧ c ≠ Char.ofNat 0xfeff

theorem opens_dumpsAt {v : Value Text} (h : NoNumber v) (indent : Option ℕ) (level : ℕ) :
    Opens (dumpsAt indent level v) := by
  cases h with
  | null => exact ⟨'n', "ull".toList, rfl, by decide⟩
  | bool b =>
    cases b with
    | true => exact ⟨'t', "rue".toList, rfl, by decide⟩
    | false => exact ⟨'f', "alse".toList, rfl, by decide⟩
  | string s => exact ⟨'"', _, rfl, by decide⟩
  | array helems =>
    rw [dumpsAt]
    split
    · exact ⟨'[', [']'], rfl, by decide⟩
    · exact ⟨'[', _, rfl, by decide⟩
  | object hmembers =>
    rw [dumpsAt]
    split
    · exact ⟨'{', ['}'], rfl, by decide⟩
    · exact ⟨'{', _, rfl, by decide⟩

theorem Opens.append {s : Text} (h : Opens s) (t : Text) : Opens (s ++ t) := by
  obtain ⟨c, s, rfl, hc⟩ := h
  exact ⟨c, s ++ t, rfl, hc⟩

theorem Opens.skipWhitespace {s : Text} (h : Opens s) : skipWhitespace s = s := by
  obtain ⟨c, s, rfl, hc, -⟩ := h
  exact skipWhitespace_cons hc s

theorem Opens.startsWith {s : Text} (h : Opens s) :
    startsWith s [']'] = false ∧ startsWith s [Char.ofNat 0xfeff] = false := by
  obtain ⟨c, s, rfl, -, hend, hbom⟩ := h
  exact ⟨by simp [Py.startsWith, List.isPrefixOf, hend.symm], by simp [Py.startsWith, List.isPrefixOf, hbom.symm]⟩

theorem opens_dumpsElems {elems : List (Value Text)} (hne : elems ≠ []) (h : ∀ v ∈ elems, NoNumber v)
    (indent : Option ℕ) (level : ℕ) : Opens (dumpsElems indent level elems) := by
  obtain _ | ⟨v, _ | ⟨w, elems⟩⟩ := elems
  · exact absurd rfl hne
  · exact opens_dumpsAt (h v List.mem_cons_self) indent level
  · rw [dumpsElems, List.append_assoc]
    exact (opens_dumpsAt (h v List.mem_cons_self) indent level).append _

theorem dumpsMembers_head {members : List (Text × Value Text)} (hne : members ≠ []) (indent : Option ℕ) (level : ℕ) :
    ∃ t, dumpsMembers indent level members = '"' :: t := by
  obtain _ | ⟨m, _ | ⟨m', members⟩⟩ := members
  · exact absurd rfl hne
  · exact ⟨_, rfl⟩
  · exact ⟨_, rfl⟩

section
variable {indent : Option ℕ}

/-- The reader, given steps for the length of the text, reads the value and leaves the rest. -/
def Scans (indent : Option ℕ) (v : Value Text) : Prop :=
  ∀ level fuel rest, 3 * (dumpsAt indent level v).length < fuel →
    scanValue fuel (dumpsAt indent level v ++ rest) = .ok (v, rest)

theorem scanElems_dumpsElems {elems : List (Value Text)} (hne : elems ≠ [])
    (h : ∀ v ∈ elems, NoNumber v ∧ Scans indent v) (level outer : ℕ) (rest : Text) : ∀ fuel : ℕ,
    3 * (dumpsElems indent level elems).length + 1 < fuel →
    scanElems fuel (dumpsElems indent level elems ++ (newline indent outer ++ ']' :: rest)) = .ok (elems, rest) := by
  induction elems with
  | nil => exact absurd rfl hne
  | cons v elems ih =>
    obtain ⟨hv, hscan⟩ := h v List.mem_cons_self
    intro fuel hfuel
    obtain _ | fuel := fuel
    · omega
    cases elems with
    | nil =>
      rw [dumpsElems] at hfuel ⊢
      rw [scanElems, hscan level fuel _ (by omega)]
      simp [skipWhitespace_newline, skipWhitespace_cons (show isWhitespace ']' = false by decide), startsWith, Bind.bind,
        Except.bind]
    | cons w elems =>
      obtain ⟨ws, hsep, hws⟩ := separator_eq indent level
      rw [dumpsElems, hsep] at hfuel ⊢
      have hskip : skipWhitespace (ws ++ (dumpsElems indent level (w :: elems) ++
          (newline indent outer ++ ']' :: rest))) =
          dumpsElems indent level (w :: elems) ++ (newline indent outer ++ ']' :: rest) := by
        have hopens := opens_dumpsElems (List.cons_ne_nil w elems)
          (fun v hv => (h v (List.mem_cons_of_mem _ hv)).1) indent level
        rw [hws, (hopens.append _).skipWhitespace]
      simp only [List.length_append, List.length_cons] at hfuel
      have hrest := ih (List.cons_ne_nil _ _) (fun v hv => h v (List.mem_cons_of_mem _ hv)) fuel (by omega)
      rw [scanElems, List.append_assoc, List.append_assoc, hscan level fuel _ (by omega)]
      simp [skipWhitespace_cons (show isWhitespace ',' = false by decide), startsWith, Bind.bind, Except.bind, hskip,
        hrest, Except.map]

/-- The name of a member is read, and the reader stands in front of the value. -/
theorem scanMembers_name {fuel : ℕ} (key s : Text) : scanMembers (fuel + 1) (dumpsString key ++ ": " ++ s) = (do
    let (v, s) ← scanValue fuel (skipWhitespace s)
    if startsWith (skipWhitespace s) ['}'] then .ok ([(key, v)], (skipWhitespace s).tail)
    else if startsWith (skipWhitespace s) [','] then
      (scanMembers fuel (skipWhitespace (skipWhitespace s).tail)).map (Prod.map ((key, v) :: ·) id)
    else .error .decodeError) := by
  have hname : dumpsString key ++ ": " ++ s = '"' :: (key.flatMap escape ++ '"' :: ':' :: ' ' :: s) := by
    simp [dumpsString]
  have hspace : skipWhitespace (' ' :: s) = skipWhitespace s := rfl
  rw [hname, scanMembers, scanString_escape]
  simp [skipWhitespace_cons (show isWhitespace ':' = false by decide), startsWith, Bind.bind, Except.bind, hspace]

theorem scanMembers_dumpsMembers {members : List (Text × Value Text)} (hne : members ≠ [])
    (h : ∀ m ∈ members, NoNumber m.2 ∧ Scans indent m.2) (level outer : ℕ) (rest : Text) : ∀ fuel : ℕ,
    3 * (dumpsMembers indent level members).length + 1 < fuel →
    scanMembers fuel (dumpsMembers indent level members ++ (newline indent outer ++ '}' :: rest)) =
      .ok (members, rest) := by
  induction members with
  | nil => exact absurd rfl hne
  | cons m members ih =>
    obtain ⟨key, v⟩ := m
    obtain ⟨hv, hscan⟩ : NoNumber v ∧ Scans indent v := h (key, v) List.mem_cons_self
    intro fuel hfuel
    obtain _ | fuel := fuel
    · omega
    cases members with
    | nil =>
      rw [dumpsMembers] at hfuel ⊢
      simp only [List.length_append] at hfuel
      rw [List.append_assoc, scanMembers_name, ((opens_dumpsAt hv indent level).append _).skipWhitespace,
        hscan level fuel _ (by omega)]
      simp [skipWhitespace_newline, skipWhitespace_cons (show isWhitespace '}' = false by decide), startsWith, Bind.bind,
        Except.bind]
    | cons m members =>
      obtain ⟨ws, hsep, hws⟩ := separator_eq indent level
      rw [dumpsMembers, hsep] at hfuel ⊢
      have hskip : skipWhitespace (ws ++ (dumpsMembers indent level (m :: members) ++
          (newline indent outer ++ '}' :: rest))) =
          dumpsMembers indent level (m :: members) ++ (newline indent outer ++ '}' :: rest) := by
        obtain ⟨t, ht⟩ := dumpsMembers_head (List.cons_ne_nil m members) indent level
        rw [hws, ht, List.cons_append, skipWhitespace_cons (by decide)]
      simp only [List.length_append, List.length_cons] at hfuel
      have hrest := ih (List.cons_ne_nil _ _) (fun m hm => h m (List.mem_cons_of_mem _ hm)) fuel (by omega)
      have hassoc : ∀ a b c d e : Text, a ++ ": " ++ b ++ c ++ d ++ e = a ++ ": " ++ (b ++ (c ++ (d ++ e))) := by
        intro a b c d e
        simp
      rw [hassoc, scanMembers_name, ((opens_dumpsAt hv indent level).append _).skipWhitespace,
        hscan level fuel _ (by omega)]
      simp [skipWhitespace_cons (show isWhitespace ',' = false by decide), startsWith, Bind.bind, Except.bind, hskip,
        hrest, Except.map]

/-- A value without numbers is read back where it was written. -/
theorem NoNumber.scans {v : Value Text} (h : NoNumber v) : Scans indent v := by
  induction h with
  | null =>
    intro level fuel rest hfuel
    obtain _ | fuel := fuel
    · omega
    rfl
  | bool b =>
    intro level fuel rest hfuel
    obtain _ | fuel := fuel
    · omega
    cases b <;> rfl
  | string s =>
    intro level fuel rest hfuel
    obtain _ | fuel := fuel
    · omega
    simp [dumpsAt, dumpsString, scanValue, scanString_escape, Except.map]
  | @array elems h ih =>
    intro level fuel rest hfuel
    rw [dumpsAt] at hfuel ⊢
    split at hfuel
    · next hnil =>
      subst hnil
      obtain _ | _ | fuel := fuel
      · omega
      · exact absurd hfuel (by decide)
      · rfl
    · next hne =>
      simp only [List.length_cons, List.length_append] at hfuel
      obtain _ | _ | fuel := fuel
      · omega
      · omega
      have helems := scanElems_dumpsElems hne (fun v hv => ⟨h v hv, ih v hv⟩) (level + 1) level rest fuel
        (by omega)
      have hopens := (opens_dumpsElems hne h indent (level + 1)).append (newline indent level ++ ']' :: rest)
      have hskip : skipWhitespace (newline indent (level + 1) ++ dumpsElems indent (level + 1) elems ++
          newline indent level ++ [']'] ++ rest) =
          dumpsElems indent (level + 1) elems ++ (newline indent level ++ ']' :: rest) := by
        simp only [List.append_assoc, skipWhitespace_newline, List.singleton_append]
        exact hopens.skipWhitespace
      have harray : scanArray (fuel + 1) (dumpsElems indent (level + 1) elems ++ (newline indent level ++ ']' :: rest)) =
          (scanElems fuel (dumpsElems indent (level + 1) elems ++ (newline indent level ++ ']' :: rest))).map
            (Prod.map .array id) := by
        rw [scanArray, hopens.startsWith.1, if_neg Bool.false_ne_true]
      rw [if_neg hne, List.cons_append, scanValue, if_neg (by decide), if_neg (by decide), if_pos rfl, hskip, harray,
        helems]
      rfl
  | @object members h ih =>
    intro level fuel rest hfuel
    rw [dumpsAt] at hfuel ⊢
    split at hfuel
    · next hnil =>
      subst hnil
      obtain _ | _ | fuel := fuel
      · omega
      · exact absurd hfuel (by decide)
      · rfl
    · next hne =>
      simp only [List.length_cons, List.length_append] at hfuel
      obtain _ | _ | fuel := fuel
      · omega
      · omega
      have hmembers := scanMembers_dumpsMembers hne (fun m hm => ⟨h m hm, ih m hm⟩) (level + 1) level rest
        fuel (by omega)
      obtain ⟨t, htext⟩ := dumpsMembers_head hne indent (level + 1)
      have hskip : skipWhitespace (newline indent (level + 1) ++ dumpsMembers indent (level + 1) members ++
          newline indent level ++ ['}'] ++ rest) =
          dumpsMembers indent (level + 1) members ++ (newline indent level ++ '}' :: rest) := by
        simp only [List.append_assoc, skipWhitespace_newline, htext, List.cons_append,
          skipWhitespace_cons (show isWhitespace '"' = false by decide), List.nil_append]
      have hobject : scanObject (fuel + 1)
          (dumpsMembers indent (level + 1) members ++ (newline indent level ++ '}' :: rest)) =
          (scanMembers fuel (dumpsMembers indent (level + 1) members ++ (newline indent level ++ '}' :: rest))).map
            (Prod.map .object id) := by
        rw [htext, List.cons_append, scanObject, if_neg (by decide)]
      rw [if_neg hne, List.cons_append, scanValue, if_neg (by decide), if_pos rfl, hskip, hobject, hmembers]
      rfl

end

/-- On one line, a value without numbers is written in printable ASCII. -/
theorem printable_dumps {v : Value Text} (h : NoNumber v) : ∀ c ∈ dumps none v, 32 ≤ c.toNat ∧ c.toNat < 127 := by
  suffices hat : ∀ level, ∀ c ∈ dumpsAt none level v, 32 ≤ c.toNat ∧ c.toNat < 127 from hat 0
  have hopen : ∀ level, newline none level = [] := fun _ => rfl
  have hseparator : ∀ level, ∀ c ∈ separator none level, 32 ≤ c.toNat ∧ c.toNat < 127 := fun _ => by
    show ∀ c ∈ [',', ' '], _
    decide
  have hcolon : ∀ c ∈ (": " : Text), 32 ≤ c.toNat ∧ c.toNat < 127 := by decide
  induction h with
  | null => exact fun _ => by rw [dumpsAt]; decide
  | bool b => cases b <;> exact fun _ => by rw [dumpsAt]; decide
  | string s => exact fun _ c hc => printable_dumpsString hc
  | @array elems h ih =>
    intro level c hc
    have helems : ∀ c ∈ dumpsElems none (level + 1) elems, 32 ≤ c.toNat ∧ c.toNat < 127 := by
      clear hc h
      induction elems with
      | nil => nofun
      | cons v elems ihelems =>
        have hrest := ihelems fun w hw => ih w (List.mem_cons_of_mem v hw)
        intro c hc
        cases elems with
        | nil => exact ih v List.mem_cons_self _ c hc
        | cons w elems =>
          rw [dumpsElems, List.mem_append, List.mem_append] at hc
          exact hc.elim (fun hc => hc.elim (ih v List.mem_cons_self _ c) (hseparator _ c)) (hrest c)
    rw [dumpsAt] at hc
    split at hc
    · exact (by decide : ∀ c ∈ ("[]" : Text), 32 ≤ c.toNat ∧ c.toNat < 127) c hc
    · simp only [hopen, List.nil_append, List.append_nil, List.mem_cons, List.mem_append, List.not_mem_nil,
        or_false] at hc
      rcases hc with rfl | hc | rfl
      · decide
      · exact helems c hc
      · decide
  | @object members h ih =>
    intro level c hc
    have hmembers : ∀ c ∈ dumpsMembers none (level + 1) members, 32 ≤ c.toNat ∧ c.toNat < 127 := by
      clear hc h
      induction members with
      | nil => nofun
      | cons m members ihmembers =>
        obtain ⟨key, v⟩ := m
        have hrest := ihmembers fun w hw => ih w (List.mem_cons_of_mem (key, v) hw)
        have hmember : ∀ c ∈ dumpsString key ++ ": " ++ dumpsAt none (level + 1) v, 32 ≤ c.toNat ∧ c.toNat < 127 := by
          intro c hc
          rw [List.mem_append, List.mem_append] at hc
          exact hc.elim (fun hc => hc.elim printable_dumpsString (hcolon c)) (ih (key, v) List.mem_cons_self _ c)
        intro c hc
        cases members with
        | nil => exact hmember c hc
        | cons m members =>
          rw [dumpsMembers, List.mem_append, List.mem_append] at hc
          exact hc.elim (fun hc => hc.elim (hmember c) (hseparator _ c)) (hrest c)
    rw [dumpsAt] at hc
    split at hc
    · exact (by decide : ∀ c ∈ ("{}" : Text), 32 ≤ c.toNat ∧ c.toNat < 127) c hc
    · simp only [hopen, List.nil_append, List.append_nil, List.mem_cons, List.mem_append, List.not_mem_nil,
        or_false] at hc
      rcases hc with rfl | hc | rfl
      · decide
      · exact hmembers c hc
      · decide

/-- A dictionary of strings as a value. -/
def stringObject (items : List (Text × Text)) : Value Text := .object (items.map fun e => (e.1, .string e.2))

theorem noNumber_stringObject (items : List (Text × Text)) : NoNumber (stringObject items) := by
  refine .object fun m hm => ?_
  obtain ⟨e, -, rfl⟩ := List.mem_map.mp hm
  exact .string e.2

theorem dumps_stringObject (items : List (Text × Text)) :
    dumps (some 4) (stringObject items) = dumpsObject items := by
  have hlines : ∀ (e : Text × Text) (items : List (Text × Text)),
      "    " ++ dumpsMembers (some 4) 1 ((e :: items).map fun e => (e.1, .string e.2)) =
        [',', '\n'].intercalate ((e :: items).map fun e => "    " ++ dumpsString e.1 ++ ": " ++ dumpsString e.2) := by
    intro e items
    induction items generalizing e with
    | nil => simp [dumpsMembers, dumpsAt]
    | cons e' items ih =>
      have hseparator : separator (some 4) 1 = [',', '\n'] ++ "    " := rfl
      have hlines := ih e'
      simp only [List.map_cons] at hlines ⊢
      rw [List.intercalate_cons_cons, ← hlines, dumpsMembers, hseparator, dumpsAt]
      simp only [List.append_assoc]
  cases items with
  | nil => rfl
  | cons e items =>
    have hopen : newline (some 4) (0 + 1) = '\n' :: "    " := rfl
    have hclose : newline (some 4) 0 = ['\n'] := rfl
    rw [dumps, stringObject, dumpsAt, if_neg (by simp), dumpsObject, if_neg (List.cons_ne_nil e items), ← hlines,
      hopen, hclose]
    simp

/-! ### The bound on the steps -/

/-- What is read is not empty. -/
def Shrinks {α : Type} (scan : Scan α) : Prop := ∀ {s : Text} {a : α} {rest : Text}, scan s = .ok (a, rest) →
  rest.length < s.length

theorem length_skipWhitespace (s : Text) : (skipWhitespace s).length ≤ s.length := s.length_dropWhile_le _

theorem length_scanCodes {rest : Text} : ∀ {s : Text} {mode : Mode} {codes : List ℕ},
    scanCodes mode s = some (codes, rest) → rest.length < s.length := by
  intro s
  induction s with
  | nil => intro mode codes h; cases mode <;> cases h
  | cons c s ih =>
    have hmap : ∀ {n : ℕ} {codes : List ℕ},
        (scanCodes .plain s).map (Prod.map (n :: ·) id) = some (codes, rest) → rest.length < s.length := by
      intro n codes h
      obtain ⟨⟨l, rest'⟩, hl, heq⟩ := Option.map_eq_some_iff.mp h
      cases heq
      exact ih hl
    intro mode codes h
    rw [List.length_cons]
    cases mode with
    | plain =>
      rw [scanCodes] at h
      split at h
      · cases h; exact Nat.lt_succ_self _
      split at h
      · exact (ih h).trans (Nat.lt_succ_self _)
      split at h
      · cases h
      · exact (hmap h).trans (Nat.lt_succ_self _)
    | backslash =>
      rw [scanCodes] at h
      split at h
      · exact (ih h).trans (Nat.lt_succ_self _)
      · obtain ⟨n, -, h⟩ := Option.bind_eq_some_iff.mp h
        exact (hmap h).trans (Nat.lt_succ_self _)
    | hex digits value =>
      rw [scanCodes] at h
      obtain ⟨n, -, h⟩ := Option.bind_eq_some_iff.mp h
      split at h
      · exact (hmap h).trans (Nat.lt_succ_self _)
      · exact (ih h).trans (Nat.lt_succ_self _)

theorem shrinks_scanString : Shrinks scanString := by
  intro s text rest h
  unfold scanString at h
  split at h
  · cases h
  · next codes rest' hcodes =>
    split at h
    · cases h
    · cases h
      exact length_scanCodes hcodes

theorem length_span (s : Text) : (s.span Char.isDigit).2.length ≤ s.length := by
  rw [List.span_eq_takeWhile_dropWhile]
  exact s.length_dropWhile_le _

theorem length_scanFraction (s : Text) : (scanFraction s).2.length ≤ s.length := by
  unfold scanFraction
  split
  · next s =>
    split
    · exact le_rfl
    · exact (length_span s).trans (Nat.le_succ _)
  · exact le_rfl

theorem length_scanSign (s : Text) : (scanSign s).2.length ≤ s.length := by
  unfold scanSign
  split
  · exact Nat.le_succ _
  · exact Nat.le_succ _
  · exact le_rfl

theorem length_scanExponent (s : Text) : (scanExponent s).2.length ≤ s.length := by
  cases s with
  | nil => exact le_rfl
  | cons c s =>
    simp only [scanExponent]
    split
    · have := length_span (scanSign s).2
      have := length_scanSign s
      simp only [List.length_cons]
      omega
    · exact le_rfl

theorem length_scanInteger {s integer rest : Text} (h : scanInteger s = some (integer, rest)) :
    rest.length < s.length := by
  have hbehind : (if startsWith s ['-'] then ((['-'] : Text), s.tail) else ([], s)).2.length ≤ s.length := by
    split
    · exact List.length_tail.trans_le (Nat.sub_le _ _)
    · exact le_rfl
  unfold scanInteger at h
  revert h hbehind
  generalize (if startsWith s ['-'] then ((['-'] : Text), s.tail) else ([], s)) = signed
  obtain ⟨minus, behind⟩ := signed
  intro h hbehind
  cases behind with
  | nil => cases h
  | cons c behind =>
    simp only [List.length_cons] at hbehind h
    split at h
    · cases h
      exact hbehind
    split at h
    · next hdigit =>
      have hspan : (c :: behind).span Char.isDigit =
          (c :: (behind.span Char.isDigit).1, (behind.span Char.isDigit).2) := by
        have hc : c.isDigit = true := by
          have hzero : '0'.val ≤ c.val := UInt32.le_trans (by decide) (Char.le_def.mp hdigit.1)
          simp only [Char.isDigit, Bool.and_eq_true, decide_eq_true_eq]
          exact ⟨hzero, Char.le_def.mp hdigit.2⟩
        simp [List.span_eq_takeWhile_dropWhile, hc]
      rw [hspan] at h
      cases h
      have := length_span behind
      simp only [id]
      omega
    · cases h

theorem shrinks_scanLiteral : Shrinks scanLiteral := by
  intro s v rest h
  unfold scanLiteral at h
  split at h
  · next hnumber =>
    cases h
    obtain ⟨⟨integer, behind⟩, hinteger, hnumber⟩ := Option.bind_eq_some_iff.mp hnumber
    have hrest : (scanExponent (scanFraction behind).2).2 = rest := congrArg Prod.snd (Option.some.inj hnumber)
    have := length_scanInteger hinteger
    have := length_scanFraction behind
    have := length_scanExponent (scanFraction behind).2
    rw [hrest] at this
    omega
  · next word v' _ hword =>
    cases h
    have hstarts : word <+: s := startsWith_iff.mp (by simpa using List.find?_some hword)
    have hmem := List.mem_of_find?_eq_some hword
    have hne : 0 < word.length := by
      have hall : ∀ e ∈ constants, 0 < e.1.length := by simp [constants]
      exact hall _ hmem
    have := hstarts.length_le
    rw [List.length_drop]
    omega
  · cases h

theorem Shrinks.map {α β : Type} {scan : Scan α} (h : Shrinks scan) (f : α → β) :
    Shrinks fun s => (scan s).map (Prod.map f id) := by
  intro s b rest hs
  cases hscan : scan s with
  | error e =>
    simp only [hscan] at hs
    cases hs
  | ok r =>
    simp only [hscan] at hs
    cases hs
    exact h hscan

theorem length_tail_skipWhitespace (s : Text) : (skipWhitespace (skipWhitespace s).tail).length ≤ s.length := by
  have := length_skipWhitespace (skipWhitespace s).tail
  have := length_skipWhitespace s
  rw [List.length_tail] at *
  omega

theorem shrinks_scan (fuel : ℕ) : Shrinks (scanValue fuel) ∧ Shrinks (scanObject fuel) ∧ Shrinks (scanMembers fuel) ∧
    Shrinks (scanArray fuel) ∧ Shrinks (scanElems fuel) := by
  induction fuel with
  | zero => exact ⟨nofun, nofun, nofun, nofun, nofun⟩
  | succ fuel ih =>
    obtain ⟨hvalue, hobject, hmembers, harray, helems⟩ := ih
    refine ⟨?_, ?_, ?_, ?_, ?_⟩
    · intro s v rest h
      cases s with
      | nil => cases h
      | cons c s =>
        have := length_skipWhitespace s
        rw [List.length_cons]
        rw [scanValue] at h
        split at h
        · exact (shrinks_scanString.map _ h).trans (Nat.lt_succ_self _)
        split at h
        · exact (hobject h).trans_le (by omega)
        split at h
        · exact (harray h).trans_le (by omega)
        · exact shrinks_scanLiteral h
    · intro s v rest h
      cases s with
      | nil => cases h
      | cons c s =>
        rw [scanObject] at h
        split at h
        · cases h
          exact Nat.lt_succ_self _
        · exact hmembers.map _ h
    · intro s members rest h
      cases s with
      | nil => cases h
      | cons c s =>
        rw [scanMembers] at h
        split at h
        · cases h
        obtain ⟨⟨key, s₁⟩, hkey, h⟩ := bind_eq_ok.mp h
        simp only at h
        split at h
        · cases h
        obtain ⟨⟨v, s₂⟩, hv, h⟩ := bind_eq_ok.mp h
        have h₁ := shrinks_scanString hkey
        have h₂ := hvalue hv
        have := length_tail_skipWhitespace s₁
        have := length_skipWhitespace s₂
        rw [List.length_cons]
        simp only at h
        split at h
        · cases h
          rw [List.length_tail]
          omega
        split at h
        · have h₃ := hmembers.map _ h
          have := length_tail_skipWhitespace s₂
          omega
        · cases h
    · intro s v rest h
      rw [scanArray] at h
      split at h
      · next hend =>
        cases h
        cases s with
        | nil => cases hend
        | cons c s => exact Nat.lt_succ_self _
      · exact helems.map _ h
    · intro s elems rest h
      rw [scanElems] at h
      obtain ⟨⟨v, s₁⟩, hv, h⟩ := bind_eq_ok.mp h
      have h₁ := hvalue hv
      have := length_skipWhitespace s₁
      simp only at h
      split at h
      · cases h
        rw [List.length_tail]
        omega
      split at h
      · have h₂ := helems.map _ h
        have := length_tail_skipWhitespace s₁
        omega
      · cases h

/-- Steps beyond those that the length of the text asks for make no difference. -/
theorem scan_fuel (fuel : ℕ) : ∀ (fuel' : ℕ) (s : Text),
    (3 * s.length < fuel → 3 * s.length < fuel' → scanValue fuel s = scanValue fuel' s) ∧
    (3 * s.length + 2 < fuel → 3 * s.length + 2 < fuel' →
      scanObject fuel s = scanObject fuel' s ∧ scanArray fuel s = scanArray fuel' s) ∧
    (3 * s.length + 1 < fuel → 3 * s.length + 1 < fuel' →
      scanMembers fuel s = scanMembers fuel' s ∧ scanElems fuel s = scanElems fuel' s) := by
  induction fuel with
  | zero =>
    intro fuel' s
    exact ⟨fun h => by omega, fun h => by omega, fun h => by omega⟩
  | succ fuel ih =>
    intro fuel' s
    obtain _ | fuel' := fuel'
    · exact ⟨fun _ h => by omega, fun _ h => by omega, fun _ h => by omega⟩
    refine ⟨fun h h' => ?_, fun h h' => ⟨?_, ?_⟩, fun h h' => ⟨?_, ?_⟩⟩
    · cases s with
      | nil => rfl
      | cons c s =>
        rw [List.length_cons] at h h'
        have := length_skipWhitespace s
        obtain ⟨hobject, harray⟩ := (ih fuel' (skipWhitespace s)).2.1 (by omega) (by omega)
        rw [scanValue, scanValue, hobject, harray]
    · cases s with
      | nil => rfl
      | cons c s => rw [scanObject, scanObject, ((ih fuel' (c :: s)).2.2 (by omega) (by omega)).1]
    · rw [scanArray, scanArray, ((ih fuel' s).2.2 (by omega) (by omega)).2]
    · cases s with
      | nil => rfl
      | cons c s =>
        rw [List.length_cons] at h h'
        rw [scanMembers, scanMembers]
        split
        · rfl
        cases hkey : scanString s with
        | error e => rfl
        | ok r =>
          obtain ⟨key, s₁⟩ := r
          have h₁ := shrinks_scanString hkey
          have := length_tail_skipWhitespace s₁
          simp only [Bind.bind, Except.bind]
          rw [(ih fuel' (skipWhitespace (skipWhitespace s₁).tail)).1 (by omega) (by omega)]
          cases hv : scanValue fuel' (skipWhitespace (skipWhitespace s₁).tail) with
          | error e => rfl
          | ok r =>
            obtain ⟨v, s₂⟩ := r
            have h₂ := (shrinks_scan fuel').1 hv
            have := length_tail_skipWhitespace s₂
            simp only [((ih fuel' (skipWhitespace (skipWhitespace s₂).tail)).2.2 (by omega) (by omega)).1]
    · rw [scanElems, scanElems, (ih fuel' s).1 (by omega) (by omega)]
      cases hv : scanValue fuel' s with
      | error e => rfl
      | ok r =>
        obtain ⟨v, s₁⟩ := r
        have h₁ := (shrinks_scan fuel').1 hv
        have := length_tail_skipWhitespace s₁
        simp only [Bind.bind, Except.bind]
        by_cases hcomma : startsWith (skipWhitespace s₁) [',']
        · have : (skipWhitespace (skipWhitespace s₁).tail).length < s₁.length := by
            have htail := length_skipWhitespace (skipWhitespace s₁).tail
            have hlen := length_skipWhitespace s₁
            cases hskip : skipWhitespace s₁ with
            | nil => rw [hskip] at hcomma; cases hcomma
            | cons c t =>
              rw [hskip] at htail hlen
              simp only [List.tail_cons, List.length_cons] at htail hlen ⊢
              omega
          rw [((ih fuel' (skipWhitespace (skipWhitespace s₁).tail)).2.2 (by omega) (by omega)).2]
        · simp only [hcomma, Bool.false_eq_true, if_false]

/-- CORRECT: with whatever more steps, the outcome is that of `loads`. -/
theorem loads_fuel {fuel : ℕ} {s : Text} (h : 3 * s.length < fuel) : loadsWith fuel s = loads s := by
  have := length_skipWhitespace s
  rw [loads, loadsWith, loadsWith, (scan_fuel fuel (3 * s.length + 1) (skipWhitespace s)).1 (by omega) (by omega)]

/-- CORRECT: a value without numbers is read back from what is written of it, on one line or indented,
    also if white space follows. -/
theorem loads_dumps (indent : Option ℕ) {v : Value Text} (h : NoNumber v) {ws : Text} (hws : skipWhitespace ws = []) :
    loads (dumps indent v ++ ws) = .ok v := by
  have hopens := (opens_dumpsAt h indent 0).append ws
  rw [loads, loadsWith, dumps, hopens.startsWith.2, if_neg Bool.false_ne_true, hopens.skipWhitespace,
    h.scans 0 _ ws (by rw [List.length_append]; omega)]
  simp [Bind.bind, Except.bind, hws]

end Py.Json
