import Mathlib.Data.List.Basic

namespace Base64

def digit (n : Nat) : Char :=
  if n < 26 then .ofNat (65 + n)
  else if n < 52 then .ofNat (71 + n)
  else if n < 62 then .ofNat (n - 4)
  else if n = 62 then '+'
  else '/'

def value (c : Char) : Option Nat :=
  if 65 ≤ c.toNat ∧ c.toNat ≤ 90 then some (c.toNat - 65)
  else if 97 ≤ c.toNat ∧ c.toNat ≤ 122 then some (c.toNat - 71)
  else if 48 ≤ c.toNat ∧ c.toNat ≤ 57 then some (c.toNat + 4)
  else if c = '+' then some 62
  else if c = '/' then some 63
  else none

/- Three bytes are four sextets; a rest of one or two bytes is filled with zero bits. -/
def sextets : List UInt8 → List Nat
  | a :: b :: c :: rest =>
    a.toNat / 4 :: (a.toNat % 4 * 16 + b.toNat / 16) :: (b.toNat % 16 * 4 + c.toNat / 64) ::
      (c.toNat % 64) :: sextets rest
  | [a, b] => [a.toNat / 4, a.toNat % 4 * 16 + b.toNat / 16, b.toNat % 16 * 4]
  | [a] => [a.toNat / 4, a.toNat % 4 * 16]
  | [] => []

/- The bits that do not fill a byte are dropped. -/
def bytes : List Nat → List UInt8
  | p :: q :: r :: s :: rest =>
    .ofNat (p * 4 + q / 16) :: .ofNat (q % 16 * 16 + r / 4) :: .ofNat (r % 4 * 64 + s) :: bytes rest
  | [p, q, r] => [.ofNat (p * 4 + q / 16), .ofNat (q % 16 * 16 + r / 4)]
  | [p, q] => [.ofNat (p * 4 + q / 16)]
  | _ => []

def padding (length : Nat) : List Char :=
  match length % 3 with
  | 1 => ['=', '=']
  | 2 => ['=']
  | _ => []

def encode (data : List UInt8) : List Char := (sextets data).map digit ++ padding data.length

def asciiSpace (c : Char) : Bool :=
  c = '\t' ∨ c = '\n' ∨ c = '\x0c' ∨ c = '\r' ∨ c = ' '

def unpad (cs : List Char) : List Char :=
  match cs.reverse with
  | '=' :: '=' :: rest => rest.reverse
  | '=' :: rest => rest.reverse
  | _ => cs

/- The forgiving decoder: white space is skipped, padding may be missing, and what a last
sextet has in excess is dropped. -/
def forgiving (text : List Char) : Option (List UInt8) :=
  let data := text.filter fun c => !asciiSpace c
  let data := if data.length % 4 = 0 then unpad data else data
  if data.length % 4 = 1 then none else (data.mapM value).map bytes

/- The strict decoder: what `encode` prints, and nothing else. -/
def decode (text : List Char) : Option (List UInt8) :=
  (forgiving text).filter fun data => encode data = text

theorem digit_facts : ∀ n : Fin 64, value (digit n) = some n.val ∧ asciiSpace (digit n) = false ∧
    digit n ≠ '=' ∧ 43 ≤ (digit n).toNat ∧ (digit n).toNat ≤ 122 ∧ digit n ≠ ',' := by
  decide

theorem sextets_lt {data : List UInt8} {n : Nat} (mem : n ∈ sextets data) : n < 64 := by
  induction data using sextets.induct with
  | case1 a b c rest ih =>
    have ha := a.toNat_lt
    have hb := b.toNat_lt
    have hc := c.toNat_lt
    simp only [sextets, List.mem_cons] at mem
    rcases mem with rfl | rfl | rfl | rfl | mem
    · omega
    · omega
    · omega
    · omega
    · exact ih mem
  | case2 a b =>
    have ha := a.toNat_lt
    have hb := b.toNat_lt
    simp only [sextets, List.mem_cons, List.not_mem_nil, or_false] at mem
    omega
  | case3 a =>
    have ha := a.toNat_lt
    simp only [sextets, List.mem_cons, List.not_mem_nil, or_false] at mem
    omega
  | case4 => simp [sextets] at mem

theorem ofNat_join {n : Nat} {b : UInt8} (same : n = b.toNat) : UInt8.ofNat n = b := by
  rw [same, UInt8.ofNat_toNat]

theorem bytes_sextets (data : List UInt8) : bytes (sextets data) = data := by
  induction data using sextets.induct with
  | case1 a b c rest ih =>
    have ha := a.toNat_lt
    have hb := b.toNat_lt
    have hc := c.toNat_lt
    simp only [sextets, bytes, ih]
    rw [ofNat_join (b := a) (by omega), ofNat_join (b := b) (by omega),
      ofNat_join (b := c) (by omega)]
  | case2 a b =>
    have ha := a.toNat_lt
    have hb := b.toNat_lt
    simp only [sextets, bytes]
    rw [ofNat_join (b := a) (by omega), ofNat_join (b := b) (by omega)]
  | case3 a =>
    have ha := a.toNat_lt
    simp only [sextets, bytes]
    rw [ofNat_join (b := a) (by omega)]
  | case4 => rfl

theorem sextets_length (data : List UInt8) :
    (sextets data).length = (4 * data.length + 2) / 3 := by
  induction data using sextets.induct with
  | case1 a b c rest ih =>
    simp only [sextets, List.length_cons, ih]
    omega
  | case2 a b => simp [sextets]
  | case3 a => simp [sextets]
  | case4 => rfl

theorem bytes_length (ns : List Nat) : 4 * (bytes ns).length ≤ 3 * ns.length := by
  induction ns using bytes.induct with
  | case1 p q r s rest ih =>
    simp only [bytes, List.length_cons]
    omega
  | case2 p q r => simp [bytes]
  | case3 p q => simp [bytes]
  | case4 ns => simp [bytes]

theorem encode_length (data : List UInt8) : (encode data).length % 4 = 0 := by
  rw [encode, List.length_append, List.length_map, sextets_length]
  have rest : data.length % 3 = 0 ∨ data.length % 3 = 1 ∨ data.length % 3 = 2 := by omega
  rcases rest with rest | rest | rest <;> simp [padding, rest] <;> omega

theorem mem_encode {data : List UInt8} {c : Char} (mem : c ∈ encode data) :
    asciiSpace c = false ∧ 43 ≤ c.toNat ∧ c.toNat ≤ 122 ∧ c ≠ ',' := by
  rcases List.mem_append.mp mem with mem | mem
  · obtain ⟨n, hn, rfl⟩ := List.mem_map.mp mem
    have facts := digit_facts ⟨n, sextets_lt hn⟩
    exact ⟨facts.2.1, facts.2.2.2⟩
  · have pad : c = '=' := by
      unfold padding at mem
      split at mem
      · simpa using mem
      · simpa using mem
      · simp at mem
    subst pad
    decide

theorem unpad_padding {cs : List Char} (clear : '=' ∉ cs) (length : Nat) :
    unpad (cs ++ padding length) = cs := by
  have last : ∀ rest, cs.reverse ≠ '=' :: rest := by
    intro rest eq
    exact clear (List.mem_reverse.mp (eq ▸ List.mem_cons_self))
  unfold padding
  split
  · simp [unpad]
  · simp only [unpad, List.reverse_append, List.reverse_cons, List.reverse_nil, List.nil_append,
      List.cons_append]
    exact List.reverse_reverse cs
  · simp only [List.append_nil, unpad]
    split
    · rename_i rest eq
      exact absurd eq (last _)
    · rename_i rest _ eq
      exact absurd eq (last rest)
    · rfl

theorem mapM_value {ns : List Nat} (small : ∀ n ∈ ns, n < 64) :
    (ns.map digit).mapM value = some ns := by
  induction ns with
  | nil => rfl
  | cons n ns ih =>
    have head := (digit_facts ⟨n, small n List.mem_cons_self⟩).1
    have tail := ih fun m hm => small m (List.mem_cons_of_mem n hm)
    simp only [List.map_cons, List.mapM_cons, head, tail]
    rfl

theorem forgiving_encode (data : List UInt8) : forgiving (encode data) = some data := by
  have spaces : (encode data).filter (fun c => !asciiSpace c) = encode data :=
    List.filter_eq_self.mpr fun c mem => by simp [(mem_encode mem).1]
  have clear : '=' ∉ (sextets data).map digit := by
    intro mem
    obtain ⟨n, hn, eq⟩ := List.mem_map.mp mem
    exact (digit_facts ⟨n, sextets_lt hn⟩).2.2.1 eq
  have full : ((sextets data).map digit).length % 4 ≠ 1 := by
    rw [List.length_map, sextets_length]
    omega
  simp only [forgiving, spaces, encode_length, ↓reduceIte]
  rw [encode, unpad_padding clear, if_neg full, mapM_value (fun n => sextets_lt), Option.map_some,
    bytes_sextets]

theorem decode_eq_some {text : List Char} {data : List UInt8} :
    decode text = some data ↔ text = encode data := by
  simp only [decode, Option.filter_eq_some_iff, decide_eq_true_eq]
  constructor
  · rintro ⟨-, same⟩
    exact same.symm
  · rintro rfl
    exact ⟨forgiving_encode data, rfl⟩

theorem encode_inj {a b : List UInt8} (same : encode a = encode b) : a = b := by
  have read := congrArg forgiving same
  rw [forgiving_encode, forgiving_encode] at read
  exact Option.some.inj read

theorem unpad_length (cs : List Char) : (unpad cs).length ≤ cs.length := by
  unfold unpad
  split
  · rename_i rest eq
    have := congrArg List.length eq
    simp only [List.length_reverse, List.length_cons] at *
    omega
  · rename_i rest _ eq
    have := congrArg List.length eq
    simp only [List.length_reverse, List.length_cons] at *
    omega
  · exact Nat.le_refl _

theorem mapM_length {cs : List Char} {ns : List Nat} (values : cs.mapM value = some ns) :
    ns.length = cs.length := by
  induction cs generalizing ns with
  | nil =>
    cases values
    rfl
  | cons c cs ih =>
    simp only [List.mapM_cons, Option.bind_eq_bind, Option.bind_eq_some_iff, Option.pure_def,
      Option.some.injEq] at values
    obtain ⟨n, -, ns, tail, rfl⟩ := values
    simp [ih tail]

theorem forgiving_length {text : List Char} {data : List UInt8} (read : forgiving text = some data)
    (some : text ≠ []) : data.length < text.length := by
  have filtered := List.length_filter_le (fun c => !asciiSpace c) text
  have positive := List.length_pos_iff.mpr some
  simp only [forgiving] at read
  generalize text.filter (fun c => !asciiSpace c) = clear at read filtered
  have shorter : (if clear.length % 4 = 0 then unpad clear else clear).length ≤ clear.length := by
    split
    · exact unpad_length clear
    · exact Nat.le_refl _
  generalize (if clear.length % 4 = 0 then unpad clear else clear) = bare at read shorter
  split at read
  · simp at read
  · obtain ⟨ns, values, rfl⟩ := Option.map_eq_some_iff.mp read
    have same := mapM_length values
    have short := bytes_length ns
    omega

end Base64
