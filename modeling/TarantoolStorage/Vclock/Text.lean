import TarantoolStorage.Vclock.Order

/-! Vclocks as text, after `vclock.c`. The parser bounds each LSN and not their sum. -/
namespace TarantoolStorage.Vclock

open List

def ttStaticBufLen : Nat := 1024

/-- `%lld`. -/
def lld : Int → List Char
  | .ofNat n => Nat.toDigits 10 n
  | .negSucc n => '-' :: Nat.toDigits 10 (n + 1)

/-- The loop of `vclock_snprint`, with the closing brace. -/
def printLoop (sep : List Char) : List (Nat × Int) → List Char
  | [] => ['}']
  | (id, lsn) :: items =>
    sep ++ Nat.toDigits 10 id ++ ':' :: ' ' :: lld lsn ++ printLoop [',', ' '] items

def snprint (v : Vclock) : List Char := '{' :: printLoop [] v.items

/-- `vclock_to_string`: what the static buffer has room for beside the terminating zero. -/
def toText (v : Vclock) : List Char := v.snprint.take (ttStaticBufLen - 1)

def isBlank (c : Char) : Bool := c = ' ' || c = '\t'

/-- `isspace` in the C locale. -/
def isSpace (c : Char) : Bool := c = ' ' || '\t' ≤ c && c ≤ '\r'

/-- `strtol` and `strtoll` where a digit stands; `errno` is set from 2⁶³ on. -/
def strtol (p : List Char) : Nat := Nat.ofDigitChars 10 (p.takeWhile Char.isDigit) 0

/-- The labels of `vclock_from_string`; from the key on with the id that was read. -/
inductive Label where
  | begin
  | key
  | sep (replicaId : Nat)
  | val (replicaId : Nat)
  | comma
  | close

/-- A component as the parser writes it. -/
def put (v : Vclock) (id : Nat) (lsn : Int) : Vclock :=
  { v with map := (bitSet v.map id).1, lsn := Function.update v.lsn id lsn }

/-- The labels of `vclock_from_string` on a text without its terminating zero. What is left of the
text at an error is returned in the first place. -/
def parse (v : Vclock) : Label → List Char → Option (List Char) × Vclock
  | .close, [] => (none, v)
  | _, [] => (some [], v)
  | .begin, c :: p =>
    if c = '{' then parse v .key p
    else if isBlank c then parse v .begin p
    else (some (c :: p), v)
  | .key, c :: p =>
    if c.isDigit then
      if 2 ^ 63 ≤ strtol (c :: p) ∨ vclockMax ≤ strtol (c :: p) then
        (some (p.dropWhile Char.isDigit), v)
      else parse v (.sep (strtol (c :: p))) (p.dropWhile Char.isDigit)
    else if c = '}' then parse v .close p
    else if isBlank c then parse v .key p
    else (some (c :: p), v)
  | .sep id, c :: p =>
    if c = ':' then parse v (.val id) p
    else if isBlank c then parse v (.sep id) p
    else (some (c :: p), v)
  | .val id, c :: p =>
    if isBlank c then parse v (.val id) p
    else if c.isDigit then
      if 2 ^ 63 ≤ strtol (c :: p) ∨ vclockMax ≤ id ∨ 0 < vclockGet v id then
        (some (p.dropWhile Char.isDigit), v)
      else parse (v.put id (strtol (c :: p))) .comma (p.dropWhile Char.isDigit)
    else (some (c :: p), v)
  | .comma, c :: p =>
    if isSpace c then parse v .comma p
    else if c = '}' then parse v .close p
    else if c = ',' then parse v .key p
    else (some (c :: p), v)
  | .close, c :: p =>
    if isBlank c then parse v .close p
    else (some (c :: p), v)
termination_by _ p => p.length
decreasing_by
  all_goals
    have hle := (p.dropWhile_sublist Char.isDigit).length_le
    grind

/-- `vclock_from_string`: zero or the place of the error, and the vclock. The sum of `int64_t`
wraps around. -/
def fromString (v : Vclock) (str : List Char) : Nat × Vclock :=
  match parse v .begin str with
  | (none, v) => (0, { v with signature := int64 (uint64 v.calcSum) })
  | (some p, v) => (str.length - p.length + 1, v)

/-- `vclock_is_set`. -/
def IsSet (v : Vclock) : Prop := 0 ≤ v.signature

/-- The sum of the numbers that stand behind the colons of a text. -/
def colonSum : List Char → Nat
  | [] => 0
  | c :: p => (if c = ':' then strtol (p.dropWhile isBlank) else 0) + colonSum p

/-- What is still to be read as LSNs. -/
def Label.sumOf (p : List Char) : Label → Nat
  | .val _ => strtol (p.dropWhile isBlank) + colonSum p
  | _ => colonSum p

section

variable {u v w : Vclock} {id k n : Nat} {lsn : Int} {p rest : List Char} {label : Label}

lemma vclockGet_put (hi : id < vclockMax) :
    vclockGet (v.put id lsn) k = if k = id then lsn else vclockGet v k := by
  have hb := bitSet_getLsbD (k := k) v.map hi
  have hg : vclockGet (v.put id lsn) k =
      if k = id ∨ v.map.getLsbD k = true then Function.update v.lsn id lsn k else 0 :=
    if_congr hb rfl rfl
  rw [hg, Function.update_apply, vclockGet]
  split_ifs <;> simp_all

lemma calcSum_put (hi : id < vclockMax) :
    (v.put id lsn).calcSum = v.calcSum - vclockGet v id + lsn := by
  have hp : vclockGet (v.put id lsn) = Function.update (vclockGet v) id lsn := by
    ext k
    rw [vclockGet_put hi, Function.update_apply]
  have hm : id ∈ Finset.range vclockMax := Finset.mem_range.mpr hi
  have hr := Finset.sum_sdiff_eq_sub (f := vclockGet v) (Finset.singleton_subset_iff.mpr hm)
  rw [Finset.sum_singleton] at hr
  rw [calcSum_eq, calcSum_eq, hp, Finset.sum_update_of_mem hm, hr]
  omega

lemma colonSum_cons {c : Char} (hc : c ≠ ':') : colonSum (c :: p) = colonSum p := by
  rw [colonSum, if_neg hc, Nat.zero_add]

lemma colonSum_dropWhile {f : Char → Bool} (hf : f ':' = false) :
    colonSum (p.dropWhile f) = colonSum p := by
  induction p with
  | nil => rfl
  | cons c p ih =>
    by_cases hc : f c = true
    · have hn : c ≠ ':' := by
        rintro rfl
        simp [hf] at hc
      rw [dropWhile_cons_of_pos hc, ih, colonSum_cons hn]
    · rw [dropWhile_cons_of_neg hc]

/-- An LSN replaces nothing but a zero. -/
lemma parse_sum (hv : ∀ id, 0 ≤ vclockGet v id) (h : parse v label p = (none, w)) :
    w.calcSum = v.calcSum + label.sumOf p := by
  have hb (c : Char) (hc : isBlank c = true) : c ≠ ':' := by
    rintro rfl
    simp [isBlank] at hc
  have hs (c : Char) (hc : isSpace c = true) : c ≠ ':' := by
    rintro rfl
    simp [isSpace] at hc
  have hdi (c : Char) (hc : c.isDigit = true) : c ≠ ':' := by
    rintro rfl
    cases hc
  have hd (p : List Char) := colonSum_dropWhile (p := p) (f := Char.isDigit) rfl
  -- only a number behind a colon changes the sum, and a component that is set was zero
  fun_induction parse v label p
  case case16 v id c p hn hdg ho ih =>
    simp only [not_or, Int.not_lt, Nat.not_le] at ho
    have hz := le_antisymm ho.2.2 (hv id)
    have hp (k : Nat) : 0 ≤ vclockGet (v.put id (strtol (c :: p))) k := by
      rw [vclockGet_put ho.2.1]
      split
      · omega
      · exact hv k
    have hsu := ih hp h
    rw [calcSum_put ho.2.1] at hsu
    simp only [Label.sumOf, hd, dropWhile_cons_of_neg hn, colonSum_cons (hdi c hdg)] at *
    omega
  all_goals try cases h
  all_goals grind [Label.sumOf, colonSum, dropWhile_cons]

lemma toDigits_append (n : Nat) (hr : ∀ c ∈ rest.head?, c.isDigit = false) :
    ∃ c p, Nat.toDigits 10 n ++ rest = c :: p ∧ c.isDigit = true ∧ strtol (c :: p) = n ∧
      p.dropWhile Char.isDigit = rest := by
  have ha : ∀ c ∈ Nat.toDigits 10 n, c.isDigit = true := fun c hc =>
    Nat.isDigit_of_mem_toDigits (by omega) (by omega) hc
  have ht : rest.takeWhile Char.isDigit = [] ∧ rest.dropWhile Char.isDigit = rest := by
    cases rest with
    | nil => exact ⟨rfl, rfl⟩
    | cons c rest => simp [hr c rfl]
  obtain ⟨c, p, he⟩ := exists_cons_of_ne_nil (Nat.toDigits_ne_nil (n := n) (b := 10))
  have hc : c.isDigit = true := ha c (by simp [he])
  refine ⟨c, p ++ rest, by rw [he, cons_append], hc, ?_, ?_⟩
  · rw [← cons_append, ← he, strtol, takeWhile_append_of_pos ha, ht.1, append_nil,
      Nat.ofDigitChars_ten_toDigits]
  · rw [dropWhile_append_of_pos fun d hd => ha d (by simp [he, hd]), ht.2]

lemma parse_item (hid : id < vclockMax) (hn : n < 2 ^ 63) (hg : vclockGet v id = 0)
    (hr : ∀ c ∈ rest.head?, c.isDigit = false) :
    parse v .key (Nat.toDigits 10 id ++ ':' :: ' ' :: (Nat.toDigits 10 n ++ rest)) =
      parse (v.put id n) .comma rest := by
  obtain ⟨d, q, hv, hd, hls, hne⟩ := toDigits_append n hr
  have hs : ∀ c ∈ (':' :: ' ' :: (Nat.toDigits 10 n ++ rest)).head?, c.isDigit = false := by simp
  obtain ⟨c, p, hk, hc, hid', hco⟩ := toDigits_append id hs
  have hbl : ¬ isBlank d = true := by
    intro hb
    simp only [isBlank, Bool.or_eq_true, decide_eq_true_eq] at hb
    rcases hb with rfl | rfl <;> cases hd
  have hi : ¬ (2 ^ 63 ≤ id ∨ vclockMax ≤ id) := by
    simp only [vclockMax] at *
    omega
  have hl : ¬ (2 ^ 63 ≤ n ∨ vclockMax ≤ id ∨ 0 < vclockGet v id) := by omega
  rw [hk, parse, if_pos hc, hid', if_neg hi, hco, parse, if_pos rfl, parse,
    if_pos (by rfl), hv, parse, if_neg hbl, if_pos hd, hls, if_neg hl, hne]

lemma parse_comma (items : List (Nat × Int)) :
    parse v .comma (printLoop [',', ' '] items) = parse v .key (printLoop [] items) := by
  cases items <;> simp [printLoop, parse, isSpace, isBlank]

lemma head?_printLoop (items : List (Nat × Int)) :
    ∀ c ∈ (printLoop [',', ' '] items).head?, c.isDigit = false := by
  cases items <;> simp [printLoop]

lemma parse_printLoop (ids : List Nat) (hno : ids.Nodup)
    (his : ∀ id ∈ ids, id < vclockMax ∧ 0 ≤ v.lsn id ∧ v.lsn id < 2 ^ 63)
    (hw : ∀ id ∈ ids, vclockGet w id = 0) :
    ∃ w', parse w .key (printLoop [] (ids.map fun id => (id, v.lsn id))) = (none, w') ∧
      ∀ k, (w'.map.getLsbD k = true ↔ k ∈ ids ∨ w.map.getLsbD k = true) ∧
        vclockGet w' k = if k ∈ ids then v.lsn k else vclockGet w k := by
  induction ids generalizing w with
  | nil =>
    refine ⟨w, ?_, fun k => ⟨by simp, by simp⟩⟩
    rw [map_nil, printLoop, parse, if_neg (by decide), if_pos rfl, parse]
  | cons id ids ih =>
    obtain ⟨hnt, hno⟩ := nodup_cons.mp hno
    obtain ⟨⟨hid, hpo, hl⟩, his⟩ := forall_mem_cons.mp his
    obtain ⟨hg, hw⟩ := forall_mem_cons.mp hw
    obtain ⟨n, hn⟩ := Int.eq_ofNat_of_zero_le hpo
    have hne (k : Nat) (hk : k ∈ ids) : vclockGet (w.put id n) k = 0 := by
      rw [vclockGet_put hid, if_neg (ne_of_mem_of_not_mem hk hnt)]
      exact hw k hk
    obtain ⟨w', hp, hw'⟩ := ih hno his hne
    refine ⟨w', ?_, fun k => ⟨?_, ?_⟩⟩
    · have hi := parse_item (n := n) hid (by omega) hg
        (head?_printLoop (ids.map fun id => (id, v.lsn id)))
      rw [parse_comma, hp] at hi
      simpa [printLoop, hn, lld] using hi
    · rw [(hw' k).1, put, bitSet_getLsbD _ hid, mem_cons]
      tauto
    · rw [(hw' k).2, vclockGet_put hid]
      by_cases hk : k = id <;> simp [hk, hn]

lemma length_printLoop (sep : List Char) (items : List (Nat × Int)) (hs : sep.length ≤ 2)
    (hi : ∀ item ∈ items, item.1 < vclockMax ∧ 0 ≤ item.2 ∧ item.2 < 2 ^ 63) :
    (printLoop sep items).length ≤ 25 * items.length + 1 := by
  induction items generalizing sep with
  | nil => simp [printLoop]
  | cons item items ih =>
    obtain ⟨⟨hid, hp, hl⟩, hi⟩ := forall_mem_cons.mp hi
    obtain ⟨n, hn⟩ := Int.eq_ofNat_of_zero_le hp
    have hk : (Nat.toDigits 10 item.1).length ≤ 2 :=
      (Nat.length_toDigits_le_iff (by decide) (by decide)).mpr (Nat.lt_trans hid (by decide))
    have hv : (lld item.2).length ≤ 19 := by
      rw [hn]
      exact (Nat.length_toDigits_le_iff (by decide) (by decide)).mpr (by omega)
    have hr := ih [',', ' '] (by decide) hi
    simp only [printLoop, length_append, length_cons] at *
    omega

lemma fromString_toText (u : Vclock)
    (hi : ∀ id ∈ setBits v.map, id < vclockMax ∧ 0 ≤ v.lsn id ∧ v.lsn id < 2 ^ 63) :
    ∃ w, fromString (create u) v.toText = (0, w) ∧ w.map = v.map ∧ vclockGet w = vclockGet v ∧
      w.signature = int64 (uint64 v.calcSum) := by
  have ht : v.toText = v.snprint := by
    have hl : (setBits v.map).length ≤ 32 := by
      simpa [setBits] using length_filter_le v.map.getLsbD (range 32)
    have hle := length_printLoop [] v.items (by decide) (by simpa [items] using hi)
    rw [toText, take_of_length_le]
    simp only [snprint, length_cons, items, length_map, ttStaticBufLen] at hle ⊢
    omega
  have hn : (setBits v.map).Nodup := nodup_range.filter _
  obtain ⟨w, hp, hw⟩ := parse_printLoop (w := create u) _ hn hi fun id _ => by
    simp [vclockGet, create]
  simp only [mem_setBits, create, BitVec.ofNat_eq_ofNat, BitVec.getLsbD_zero, Bool.false_eq_true,
    or_false] at hw
  have hm : w.map = v.map := BitVec.eq_of_getLsbD_eq fun k _ => Bool.eq_iff_iff.mpr (hw k).1
  have hg : vclockGet w = vclockGet v := by
    ext k
    rw [(hw k).2]
    simp [vclockGet]
  refine ⟨{ w with signature := int64 (uint64 w.calcSum) }, ?_, hm, hg, ?_⟩
  · rw [fromString, ht, snprint, parse, if_pos rfl, items, hp]
  · rw [calcSum_eq, calcSum_eq, hg]

lemma calcSum_eq_colonSum {str : List Char} (h : fromString (create u) str = (0, w)) :
    w.calcSum = colonSum str ∧ w.signature = int64 (uint64 w.calcSum) := by
  have hz (id : Nat) : vclockGet (create u) id = 0 := by simp [vclockGet, create]
  rw [fromString] at h
  split at h
  · next v hp =>
    obtain rfl := (Prod.mk.inj h).2
    have hs := parse_sum (fun id => (hz id).ge) hp
    rw [calcSum_eq (create u), Finset.sum_eq_zero fun id _ => hz id, zero_add] at hs
    exact ⟨hs, rfl⟩
  · cases (Prod.mk.inj h).1

end

/-- The text is exact unless the sum of the LSNs is above the largest one. -/
theorem vclock_text_exact_iff (u : Vclock) :
    (∀ v : Vclock, (∀ id, 0 ≤ vclockGet v id) → v.calcSum < 2 ^ 63 →
      ∃ w, fromString (create u) v.toText = (0, w) ∧ w.map = v.map ∧
        vclockGet w = vclockGet v ∧ (w.signature = v.signature ↔ v.signature = v.calcSum)) ∧
      ∀ str w, fromString (create u) str = (0, w) →
        (w.signature = w.calcSum ∧ w.IsSet ↔ colonSum str < 2 ^ 63) := by
  have he (n : Nat) : int64 (uint64 n) = n ↔ n < 2 ^ 63 := by
    refine ⟨fun heq => ?_, fun hl => ?_⟩
    · have hl := BitVec.two_mul_toInt_lt (x := BitVec.ofNat 64 (uint64 n))
      rw [int64] at heq
      omega
    · rw [uint64_natCast (by omega), int64_of_lt hl]
  constructor
  · intro v hv hf
    have hno : 0 ≤ v.calcSum := by
      rw [calcSum_eq]
      exact Finset.sum_nonneg fun id _ => hv id
    have hi (id : Nat) (hid : id ∈ setBits v.map) :
        id < vclockMax ∧ 0 ≤ v.lsn id ∧ v.lsn id < 2 ^ 63 := by
      have hb := mem_setBits.mp hid
      have hg : vclockGet v id = v.lsn id := if_pos hb
      have hl : id < vclockMax := BitVec.lt_of_getLsbD hb
      have hle := Finset.single_le_sum (fun id _ => hv id) (Finset.mem_range.mpr hl)
      rw [← calcSum_eq, hg] at hle
      exact ⟨hl, hg ▸ hv id, hle.trans_lt hf⟩
    obtain ⟨w, hp, hm, hg, hs⟩ := fromString_toText u hi
    obtain ⟨n, hn⟩ := Int.eq_ofNat_of_zero_le hno
    refine ⟨w, hp, hm, hg, ?_⟩
    rw [hs, hn, (he n).mpr (by omega), eq_comm]
  · intro str w h
    obtain ⟨hsu, hs⟩ := calcSum_eq_colonSum h
    rw [hsu] at hs
    rw [IsSet, hs, hsu, he, and_iff_left_iff_imp]
    intro hl
    rw [(he _).mpr hl]
    omega

/-- Two components, with one value at every id that is not in use. -/
def sameLsns : Vclock := { map := 6, signature := 10, lsn := fun _ => 5 }

theorem vclock_text_exact_of_two :
    ∃ w, fromString (create sameLsns) sameLsns.toText = (0, w) ∧ w.signature = 10 ∧
      w.signature = w.calcSum ∧ w.IsSet := by
  have hpo (id : Nat) : 0 ≤ vclockGet sameLsns id := by
    rw [vclockGet]
    split
    · exact Int.zero_le_ofNat 5
    · exact Int.le_refl 0
  obtain ⟨w, hp, -, -, hs⟩ := (vclock_text_exact_iff sameLsns).1 sameLsns hpo (by decide)
  exact ⟨w, hp, hs.mpr (by decide),
    ((vclock_text_exact_iff sameLsns).2 sameLsns.toText w hp).mpr (by decide)⟩

/-- Two LSNs with a sum that no LSN can be. -/
def twoLsns : Vclock :=
  { map := 6, signature := 2 ^ 63, lsn := fun id => if id = 1 then 2 ^ 63 - 1 else 1 }

theorem overflowing_text_accepted : twoLsns.toText = "\x7b1: 9223372036854775807, 2: 1\x7d".toList ∧
      ∃ w, fromString (create twoLsns) twoLsns.toText = (0, w) ∧ w.calcSum = 2 ^ 63 ∧
        w.signature = -2 ^ 63 ∧ ¬ w.IsSet := by
  refine ⟨by decide, ?_⟩
  obtain ⟨w, hp, -, he, hs⟩ := fromString_toText (v := twoLsns) twoLsns (by decide)
  have hn : w.signature = -2 ^ 63 := hs.trans (by decide)
  have hsu : w.calcSum = twoLsns.calcSum := by rw [calcSum_eq, calcSum_eq, he]
  refine ⟨w, hp, hsu.trans (by decide), hn, ?_⟩
  rw [IsSet, hn]
  decide

end TarantoolStorage.Vclock
