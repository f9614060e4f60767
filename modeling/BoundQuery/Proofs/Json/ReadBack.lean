import BoundQuery.Proofs.Json.Reader
import BoundQuery.Proofs.TextMap
import BoundQuery.Proofs.Compiled

/-! What is written as JSON is read back. The text of a value takes the reader from a place where a
value has to come to the place after that value, whatever is open around it; so the whole text is
read, and as the value that was written, but that a tuple comes back as a list. -/
namespace BoundQuery

namespace Json

section Strings

theorem readCodes_escape {e c : Char} (hu : e ≠ 'u') (he : unescaped? e = some c) (rest : List Char) :
    readCodes ('\\' :: e :: rest) = (readCodes rest).map (withCode c.toNat) := by
  rw [readCodes.eq_def]
  simp only [Char.reduceEq, hu, he, if_false, if_true]
  cases readCodes rest <;> rfl

theorem hexDigits_below_32 {n : Nat} (h : n < 32) :
    Text.hexDigits 4 n = ['0', '0', (n / 16).digitChar, (n % 16).digitChar] ∧
      unit? '0' '0' (n / 16).digitChar (n % 16).digitChar = some n := by
  revert n
  decide

/-- A character is read from how it is written in a string. -/
theorem readCodes_escaped (c : Char) (rest : List Char) :
    readCodes (escaped c ++ rest) = (readCodes rest).map (withCode c.toNat) := by
  unfold escaped
  split_ifs with hself hn hr ht hb hf hcontrol
  · have hu : c ≠ 'u' ∧ unescaped? c = some c := by
      simp only [Bool.or_eq_true, beq_iff_eq] at hself
      rcases hself with rfl | rfl <;> decide
    exact readCodes_escape hu.1 hu.2 rest
  · obtain rfl := beq_iff_eq.mp hn
    exact readCodes_escape (by decide) rfl rest
  · obtain rfl := beq_iff_eq.mp hr
    exact readCodes_escape (by decide) rfl rest
  · obtain rfl := beq_iff_eq.mp ht
    exact readCodes_escape (by decide) rfl rest
  · obtain rfl := beq_iff_eq.mp hb
    exact readCodes_escape (by decide) rfl rest
  · obtain rfl := beq_iff_eq.mp hf
    exact readCodes_escape (by decide) rfl rest
  · obtain ⟨hdigits, hunit⟩ := hexDigits_below_32 hcontrol
    rw [hdigits]
    simp only [List.cons_append, List.nil_append]
    rw [readCodes.eq_def]
    simp only [Char.reduceEq, hunit, if_false, if_true]
    cases readCodes rest <;> rfl
  · simp only [Bool.or_eq_true, beq_iff_eq, not_or] at hself
    rw [List.singleton_append, readCodes.eq_def]
    simp only [hself.1, hself.2, hcontrol, if_false]

theorem readCodes_flatMap_escaped (cs rest : List Char) :
    readCodes (cs.flatMap escaped ++ '"' :: rest) = some (cs.map Char.toNat, rest) := by
  induction cs with
  | nil =>
    rw [List.flatMap_nil, List.nil_append, readCodes.eq_def]
    rfl
  | cons c cs ih =>
    rw [List.flatMap_cons, List.append_assoc, readCodes_escaped, ih]
    rfl

/-- No character is one half of another. -/
theorem not_surrogate (c : Char) : isHigh c.toNat = false ∧ isLow c.toNat = false := by
  have hvalid : c.toNat < 0xD800 ∨ (0xDFFF < c.toNat ∧ c.toNat < 0x110000) := c.valid
  simp only [isHigh, isLow, Bool.and_eq_false_iff, decide_eq_false_iff_not]
  omega

theorem characters?_map_toNat (cs : List Char) : characters? (cs.map Char.toNat) = some cs := by
  induction cs with
  | nil => rfl
  | cons c cs ih =>
    obtain ⟨hhigh, hlow⟩ := not_surrogate c
    rw [List.map_cons, characters?.eq_def]
    simp [hhigh, hlow, ih, Char.ofNat_toNat]

theorem readToken_string (s : String) (rest : List Char) :
    readToken ((string s).toList ++ rest) = some (.scalar (.str s), rest) := by
  have htext : (string s).toList ++ rest = '"' :: (s.toList.flatMap escaped ++ '"' :: rest) := by
    simp [string]
  have hread : readString (s.toList.flatMap escaped ++ '"' :: rest) = some (.str s, rest) := by
    simp [readString, readCodes_flatMap_escaped, characters?_map_toNat]
  rw [htext]
  simp [readToken, readScalar, hread]

end Strings

section Numbers

/-- Nothing that a number could go on with. -/
def Ends (rest : List Char) : Prop := ∀ c ∈ rest.head?, c = ',' ∨ c = ']' ∨ c = '\x7d'

theorem Ends.nil : Ends [] := by simp [Ends]

theorem Ends.cons {c : Char} (h : c = ',' ∨ c = ']' ∨ c = '\x7d') (rest : List Char) :
    Ends (c :: rest) := by simpa [Ends] using h

theorem Ends.digits {rest : List Char} (h : Ends rest) :
    rest.takeWhile Char.isDigit = [] ∧ rest.dropWhile Char.isDigit = rest ∧
      readFraction rest = some ([], rest) ∧ readPower rest = some (none, rest) := by
  cases rest with
  | nil => exact ⟨rfl, rfl, rfl, rfl⟩
  | cons c rest => rcases h c rfl with rfl | rfl | rfl <;> exact ⟨rfl, rfl, rfl, rfl⟩

theorem head?_toDigits (n : Nat) (h : 0 < n) : (Nat.toDigits 10 n).head? ≠ some '0' := by
  induction n using Nat.strongRecOn with
  | ind n ih =>
    by_cases hn : n < 10
    · have hdigit : ∀ m < 10, 0 < m → m.digitChar ≠ '0' := by decide
      rw [Nat.toDigits_of_lt_base hn]
      exact fun hzero => hdigit n hn h (Option.some.inj hzero)
    · have hfirst := ih (n / 10) (by omega) (by omega)
      rw [Nat.toDigits_of_base_le (by decide) (by omega),
        List.head?_append_of_ne_nil _ Nat.toDigits_ne_nil]
      exact hfirst

theorem isWhole_toDigits (n : Nat) : isWhole (Nat.toDigits 10 n) = true := by
  cases n with
  | zero => rfl
  | succ n =>
    have hne : Nat.toDigits 10 (n + 1) ≠ [] := Nat.toDigits_ne_nil
    simp [isWhole, head?_toDigits (n + 1) (Nat.succ_pos n), hne]

theorem readUnsigned_toDigits (negative : Bool) (n : Nat) {rest : List Char} (h : Ends rest) :
    readUnsigned negative (Nat.toDigits 10 n ++ rest) =
      some (.int (if negative then -n else n), rest) := by
  obtain ⟨htake, hdrop, hfraction, hpower⟩ := h.digits
  have hdigits : ∀ c ∈ Nat.toDigits 10 n, c.isDigit = true :=
    fun c hc => Nat.isDigit_of_mem_toDigits (by decide) (by decide) hc
  have hnumber : Decimal.number (Nat.toDigits 10 n) = n := Nat.ofDigitChars_ten_toDigits
  have hwhole : (Nat.toDigits 10 n ++ rest).takeWhile Char.isDigit = Nat.toDigits 10 n := by
    rw [List.takeWhile_append_of_pos hdigits, htake, List.append_nil]
  have hafter : (Nat.toDigits 10 n ++ rest).dropWhile Char.isDigit = rest := by
    rw [List.dropWhile_append_of_pos hdigits, hdrop]
  simp [readUnsigned, hwhole, hafter, isWhole_toDigits, hfraction, hpower, hnumber]

/-- What begins with a digit can only be a number. -/
theorem readToken_of_isDigit {c : Char} (hc : c.isDigit = true) (cs : List Char) :
    readToken (c :: cs) = (readUnsigned false (c :: cs)).map fun (v, rest) => (.scalar v, rest) := by
  have hscalar : readScalar (c :: cs) = readUnsigned false (c :: cs) := by
    unfold readScalar readNumber
    split
    case h_5 => split <;> simp_all
    all_goals simp_all
  unfold readToken
  split
  case h_7 => rw [hscalar]
  all_goals simp_all

theorem readToken_int (n : Int) {rest : List Char} (h : Ends rest) :
    readToken ((toString n).toList ++ rest) = some (.scalar (.int n), rest) := by
  cases n with
  | ofNat n =>
    have htext : (toString (Int.ofNat n)).toList = Nat.toDigits 10 n := String.toList_ofList
    obtain ⟨c, cs, hcs⟩ := List.exists_cons_of_ne_nil (Nat.toDigits_ne_nil (n := n) (b := 10))
    have hc : c.isDigit = true :=
      Nat.isDigit_of_mem_toDigits (by decide) (by decide) (hcs ▸ List.mem_cons_self)
    have hread := readUnsigned_toDigits false n h
    rw [hcs] at hread
    rw [htext, hcs, List.cons_append, readToken_of_isDigit hc, ← List.cons_append, hread]
    rfl
  | negSucc n =>
    have htext : (toString (Int.negSucc n)).toList = '-' :: Nat.toDigits 10 (n + 1) := by
      have hrepr : toString (Int.negSucc n) = "-" ++ String.ofList (Nat.toDigits 10 (n + 1)) := rfl
      simp [hrepr]
    have hminus : readToken ('-' :: (Nat.toDigits 10 (n + 1) ++ rest)) =
        (readUnsigned true (Nat.toDigits 10 (n + 1) ++ rest)).map fun (v, rest) =>
          (.scalar v, rest) := rfl
    rw [htext, List.cons_append, hminus, readUnsigned_toDigits true (n + 1) h]
    rfl

end Numbers

section Machine

variable {state : State} {frames : List Frame} {cs rest : List Char}

theorem reads_token {state' : State} {t : Token} (hread : readToken cs = some (t, rest))
    (hstep : state.step t = some state') : reads state cs = reads state' rest := by
  rw [reads]
  split
  · rename_i hread'
    cases hread.symm.trans hread'
    rw [hstep]
  · rename_i hread'
    cases hread.symm.trans hread'

/-- A value may begin here, within the given frames. -/
def State.Starts (state : State) (frames : List Frame) : Prop :=
  ∀ t state', begin frames t = some state' → state.step t = some state'

theorem State.starts_value (frames : List Frame) : (value frames).Starts frames :=
  fun _ _ h => h

theorem State.starts_firstItem (frames : List Frame) :
    (firstItem frames).Starts (.items [] :: frames) := by
  intro t state' h
  cases t with
  | closeList => cases h
  | _ => exact h

/-- A key may come here, after the entries that are there. -/
def State.Names (state : State) (done : Entries) (frames : List Frame) : Prop :=
  ∀ s, state.step (.scalar (.str s)) = some (.colon done s frames)

theorem reads_scalar {v : Value} (hstate : state.Starts frames)
    (hread : readToken cs = some (.scalar v, rest)) : reads state cs = reads (.after v frames) rest :=
  reads_token hread (hstate _ _ rfl)

theorem State.names_firstName (frames : List Frame) : (firstName frames).Names [] frames :=
  fun _ => rfl

theorem State.names_nextName (done : Entries) (frames : List Frame) :
    (nextName done frames).Names done frames := fun _ => rfl

end Machine

mutual

/-- Nothing, truth values, whole numbers and texts, and lists, tuples and maps of these; the keys
of a map are texts, each of them once. -/
def Faithful : Value → Prop
  | .null => True
  | .bool _ => True
  | .int _ => True
  | .str _ => True
  | .list items => ItemsFaithful items
  | .tuple items => ItemsFaithful items
  | .map es => EntriesFaithful es
  | _ => False

def ItemsFaithful : List Value → Prop
  | [] => True
  | v :: vs => Faithful v ∧ ItemsFaithful vs

def EntriesFaithful : List (Value × Value) → Prop
  | [] => True
  | (key, value) :: es =>
    (∃ name, key = .str name) ∧ key ∉ Entries.keys es ∧ Faithful value ∧ EntriesFaithful es

end

end Json

mutual

/-- The value with every tuple as a list. -/
def Value.listed : Value → Value
  | .list items => .list (listedItems items)
  | .tuple items => .list (listedItems items)
  | .map es => .map (listedEntries es)
  | v => v

def listedItems : List Value → List Value
  | [] => []
  | v :: vs => v.listed :: listedItems vs

def listedEntries : List (Value × Value) → List (Value × Value)
  | [] => []
  | (key, value) :: es => (key, value.listed) :: listedEntries es

end

namespace Json

theorem put_of_not_mem {name : String} {v : Value} {done : Entries}
    (h : Value.str name ∉ Entries.keys done) :
    Entries.put (.str name) v done = done ++ [(.str name, v)] := by
  induction done with
  | nil => rfl
  | cons e done ih =>
    have hsame : ¬ e.1.same (.str name) = true := by
      rw [Value.same_str_iff]
      exact fun heq => h (heq ▸ List.mem_cons_self)
    have hrest : Value.str name ∉ Entries.keys done := fun hmem => h (List.mem_cons_of_mem _ hmem)
    rw [Entries.put, if_neg hsame, ih hrest]
    rfl

section Brackets

variable {state : State} {frames : List Frame} {rest : List Char} {ts : List String}

theorem toList_intercalate_comma {t : String} (hts : ts ≠ []) :
    (",".intercalate (t :: ts)).toList = t.toList ++ ',' :: (",".intercalate ts).toList := by
  cases ts with
  | nil => exact absurd rfl hts
  | cons second ts =>
    rw [String.intercalate_cons_cons]
    simp

theorem jsonItems_ne_nil {v : Value} {vs : List Value} (h : jsonItems (v :: vs) = .ok ts) :
    ts ≠ [] := by
  obtain ⟨t, -, h⟩ := except_bind_eq_ok_iff.mp h
  obtain ⟨more, -, h⟩ := except_bind_eq_ok_iff.mp h
  cases h
  exact List.cons_ne_nil t more

theorem jsonEntries_cons {name : String} {v : Value} {es : Entries}
    (h : jsonEntries ((.str name, v) :: es) = .ok ts) : ∃ t more, v.json = .ok t ∧
      jsonEntries es = .ok more ∧ ts = (string name ++ ":" ++ t) :: more := by
  obtain ⟨text, hkey, h⟩ := except_bind_eq_ok_iff.mp h
  obtain ⟨t, ht, h⟩ := except_bind_eq_ok_iff.mp h
  obtain ⟨more, hmore, h⟩ := except_bind_eq_ok_iff.mp h
  obtain rfl := Except.ok.inj hkey
  exact ⟨t, more, ht, hmore, (Except.ok.inj h).symm⟩

theorem jsonEntries_ne_nil {e : Value × Value} {es : Entries} (h : jsonEntries (e :: es) = .ok ts) :
    ts ≠ [] := by
  obtain ⟨key, -, h⟩ := except_bind_eq_ok_iff.mp h
  obtain ⟨t, -, h⟩ := except_bind_eq_ok_iff.mp h
  obtain ⟨more, -, h⟩ := except_bind_eq_ok_iff.mp h
  cases h
  exact List.cons_ne_nil _ more

/-- A key, the colon after it and the text of a value. -/
theorem reads_member {done : Entries} (hstate : state.Names done frames) {name t : String} :
    reads state ((string name ++ ":" ++ t).toList ++ rest) =
      reads (.value (.members done name :: frames)) (t.toList ++ rest) := by
  have htext : (string name ++ ":" ++ t).toList ++ rest =
      (string name).toList ++ ':' :: (t.toList ++ rest) := by simp
  rw [htext, reads_token (readToken_string name _) (hstate name)]
  exact reads_token rfl rfl

/-- A list is read if its items are, between the brackets. -/
theorem reads_list (hstate : state.Starts frames) {items : List Value} (hts : jsonItems items = .ok ts)
    (hitems : items ≠ [] → reads (.firstItem frames) ((",".intercalate ts).toList ++ ']' :: rest) =
      reads (.after (.list (listedItems items)) frames) rest) :
    reads state (("[" ++ ",".intercalate ts ++ "]").toList ++ rest) =
      reads (.after (.list (listedItems items)) frames) rest := by
  have htext : ("[" ++ ",".intercalate ts ++ "]").toList ++ rest =
      '[' :: ((",".intercalate ts).toList ++ ']' :: rest) := by simp
  have hopen : readToken ('[' :: ((",".intercalate ts).toList ++ ']' :: rest)) =
      some (.openList, (",".intercalate ts).toList ++ ']' :: rest) := rfl
  rw [htext, reads_token hopen (hstate _ _ rfl)]
  cases items with
  | nil =>
    cases hts
    exact reads_token rfl rfl
  | cons v vs => exact hitems (List.cons_ne_nil v vs)

theorem reads_map (hstate : state.Starts frames) {es : Entries} (hts : jsonEntries es = .ok ts)
    (hentries : es ≠ [] → reads (.firstName frames) ((",".intercalate ts).toList ++ '\x7d' :: rest) =
      reads (.after (.map (listedEntries es)) frames) rest) :
    reads state (("\x7b" ++ ",".intercalate ts ++ "\x7d").toList ++ rest) =
      reads (.after (.map (listedEntries es)) frames) rest := by
  have htext : ("\x7b" ++ ",".intercalate ts ++ "\x7d").toList ++ rest =
      '\x7b' :: ((",".intercalate ts).toList ++ '\x7d' :: rest) := by simp
  have hopen : readToken ('\x7b' :: ((",".intercalate ts).toList ++ '\x7d' :: rest)) =
      some (.openMap, (",".intercalate ts).toList ++ '\x7d' :: rest) := rfl
  rw [htext, reads_token hopen (hstate _ _ rfl)]
  cases es with
  | nil =>
    cases hts
    exact reads_token rfl rfl
  | cons e es => exact hentries (List.cons_ne_nil e es)

end Brackets

mutual

/-- The text of a value brings the reader to the place after the value. -/
theorem reads_value : (v : Value) → Faithful v → ∀ {t : String}, v.json = .ok t →
    ∀ {rest : List Char}, Ends rest → ∀ {state : State} {frames : List Frame}, state.Starts frames →
      reads state (t.toList ++ rest) = reads (.after v.listed frames) rest
  | .null, _, t, ht, rest, _, state, frames, hstate => by
    cases ht
    exact reads_scalar hstate rfl
  | .bool b, _, t, ht, rest, _, state, frames, hstate => by
    cases ht
    cases b <;> exact reads_scalar hstate rfl
  | .int n, _, t, ht, rest, hrest, state, frames, hstate => by
    cases ht
    exact reads_scalar hstate (readToken_int n hrest)
  | .str s, _, t, ht, rest, _, state, frames, hstate => by
    cases ht
    exact reads_scalar hstate (readToken_string s rest)
  | .list items, h, t, ht, rest, _, state, frames, hstate => by
    obtain ⟨ts, hts, ht⟩ := except_bind_eq_ok_iff.mp ht
    cases ht
    exact reads_list hstate hts fun hne =>
      reads_items items h hne hts (State.starts_firstItem frames)
  | .tuple items, h, t, ht, rest, _, state, frames, hstate => by
    obtain ⟨ts, hts, ht⟩ := except_bind_eq_ok_iff.mp ht
    cases ht
    exact reads_list hstate hts fun hne =>
      reads_items items h hne hts (State.starts_firstItem frames)
  | .map es, h, t, ht, rest, _, state, frames, hstate => by
    obtain ⟨ts, hts, ht⟩ := except_bind_eq_ok_iff.mp ht
    cases ht
    exact reads_map hstate hts fun hne =>
      reads_entries es h hne hts (fun key _ => List.not_mem_nil) (State.names_firstName frames)

/-- Items bring it to the end of the list that is open, after those that are in it. -/
theorem reads_items : (items : List Value) → ItemsFaithful items → items ≠ [] →
    ∀ {ts : List String}, jsonItems items = .ok ts →
      ∀ {rest : List Char} {state : State} {done : List Value} {frames : List Frame},
        state.Starts (.items done :: frames) →
          reads state ((",".intercalate ts).toList ++ ']' :: rest) =
            reads (.after (.list (done ++ listedItems items)) frames) rest
  | [], _, hne, _, _, _, _, _, _, _ => absurd rfl hne
  | [v], h, _, ts, hts, rest, state, done, frames, hstate => by
    obtain ⟨t, ht, hts⟩ := except_bind_eq_ok_iff.mp hts
    cases hts
    rw [String.intercalate_singleton, reads_value v h.1 ht (.cons (.inr (.inl rfl)) rest) hstate]
    exact reads_token rfl rfl
  | v :: w :: ws, h, _, ts, hts, rest, state, done, frames, hstate => by
    obtain ⟨t, ht, hts⟩ := except_bind_eq_ok_iff.mp hts
    obtain ⟨more, hmore, hts⟩ := except_bind_eq_ok_iff.mp hts
    cases hts
    have hcomma : reads (.after v.listed (.items done :: frames))
        (',' :: ((",".intercalate more).toList ++ ']' :: rest)) =
          reads (.value (.items (done ++ [v.listed]) :: frames))
            ((",".intercalate more).toList ++ ']' :: rest) := reads_token rfl rfl
    have hitems : reads (.value (.items (done ++ [v.listed]) :: frames))
        ((",".intercalate more).toList ++ ']' :: rest) =
          reads (.after (.list (done ++ [v.listed] ++ listedItems (w :: ws))) frames) rest :=
      reads_items (w :: ws) h.2 (List.cons_ne_nil w ws) hmore (State.starts_value _)
    rw [toList_intercalate_comma (jsonItems_ne_nil hmore), List.append_assoc, List.cons_append,
      reads_value v h.1 ht (.cons (.inl rfl) _) hstate, hcomma, hitems, List.append_assoc]
    rfl

theorem reads_entries : (es : List (Value × Value)) → EntriesFaithful es → es ≠ [] →
    ∀ {ts : List String}, jsonEntries es = .ok ts →
      ∀ {rest : List Char} {state : State} {done : Entries} {frames : List Frame},
        (∀ key ∈ Entries.keys es, key ∉ Entries.keys done) → state.Names done frames →
          reads state ((",".intercalate ts).toList ++ '\x7d' :: rest) =
            reads (.after (.map (done ++ listedEntries es)) frames) rest
  | [], _, hne, _, _, _, _, _, _, _, _ => absurd rfl hne
  | [(key, value)], h, _, ts, hts, rest, state, done, frames, hfresh, hstate => by
    obtain ⟨⟨name, rfl⟩, -, hvalue, -⟩ := h
    obtain ⟨t, more, ht, hmore, rfl⟩ := jsonEntries_cons hts
    cases hmore
    have hclose : reads (.after value.listed (.members done name :: frames)) ('\x7d' :: rest) =
        reads (.after (.map (Entries.put (.str name) value.listed done)) frames) rest :=
      reads_token rfl rfl
    rw [String.intercalate_singleton, reads_member hstate,
      reads_value value hvalue ht (.cons (.inr (.inr rfl)) rest) (State.starts_value _), hclose,
      put_of_not_mem (hfresh _ List.mem_cons_self)]
    rfl
  | (key, value) :: e :: es, h, _, ts, hts, rest, state, done, frames, hfresh, hstate => by
    obtain ⟨⟨name, rfl⟩, hname, hvalue, hes⟩ := h
    obtain ⟨t, more, ht, hmore, rfl⟩ := jsonEntries_cons hts
    have hcomma : reads (.after value.listed (.members done name :: frames))
        (',' :: ((",".intercalate more).toList ++ '\x7d' :: rest)) =
          reads (.nextName (Entries.put (.str name) value.listed done) frames)
            ((",".intercalate more).toList ++ '\x7d' :: rest) := reads_token rfl rfl
    have hlater : ∀ key ∈ Entries.keys (e :: es),
        key ∉ Entries.keys (done ++ [(.str name, value.listed)]) := by
      intro key hkey hmem
      rw [Entries.keys, List.map_append, List.mem_append] at hmem
      rcases hmem with hmem | hmem
      · exact hfresh key (List.mem_cons_of_mem _ hkey) hmem
      · obtain rfl := List.mem_singleton.mp hmem
        exact hname hkey
    have hentries : reads (.nextName (done ++ [(.str name, value.listed)]) frames)
        ((",".intercalate more).toList ++ '\x7d' :: rest) =
          reads (.after (.map (done ++ [(.str name, value.listed)] ++ listedEntries (e :: es))) frames)
            rest :=
      reads_entries (e :: es) hes (List.cons_ne_nil e es) hmore hlater (State.names_nextName _ frames)
    rw [toList_intercalate_comma (jsonEntries_ne_nil hmore), List.append_assoc, List.cons_append,
      reads_member hstate, reads_value value hvalue ht (.cons (.inl rfl) _) (State.starts_value _),
      hcomma, put_of_not_mem (hfresh _ List.mem_cons_self), hentries, List.append_assoc]
    rfl

end

mutual

theorem Faithful.textKeyed : (v : Value) → Faithful v → Filter.TextKeyed v
  | .null, _ => trivial
  | .bool _, _ => trivial
  | .int _, _ => trivial
  | .str _, _ => trivial
  | .list items, h => ItemsFaithful.textKeyed items h
  | .tuple items, h => ItemsFaithful.textKeyed items h
  | .map es, h => EntriesFaithful.textKeyed es h

theorem ItemsFaithful.textKeyed : (vs : List Value) → ItemsFaithful vs → Filter.ItemsTextKeyed vs
  | [], _ => trivial
  | v :: vs, h => ⟨Faithful.textKeyed v h.1, ItemsFaithful.textKeyed vs h.2⟩

theorem EntriesFaithful.textKeyed :
    (es : List (Value × Value)) → EntriesFaithful es → Filter.EntriesTextKeyed es
  | [], _ => trivial
  | (_, value) :: es, h =>
    ⟨h.1, Faithful.textKeyed value h.2.2.1, EntriesFaithful.textKeyed es h.2.2.2⟩

end

section Values

variable {v w : Value} {t : String}

theorem Faithful.exists_json (h : Faithful v) : ∃ t, v.json = .ok t :=
  Filter.TextKeyed.json v (Faithful.textKeyed v h)

/-- The reader gives back what was written. -/
theorem Faithful.read?_json (h : Faithful v) (ht : v.json = .ok t) : read? t = some v.listed := by
  have hread := reads_value v h ht Ends.nil (State.starts_value [])
  rw [List.append_nil] at hread
  rw [read?, hread, reads]
  rfl

theorem Faithful.listed_eq (hv : Faithful v) (hw : Faithful w) (h : v.json = w.json) :
    v.listed = w.listed := by
  obtain ⟨t, ht⟩ := hv.exists_json
  have hread := hv.read?_json ht
  rw [hw.read?_json (h.symm.trans ht)] at hread
  exact (Option.some.inj hread).symm

end Values

end Json

end BoundQuery
