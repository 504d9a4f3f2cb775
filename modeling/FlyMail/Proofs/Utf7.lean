/-
Which mailbox names survive being written and read.

The last bytes of a run are written with one digit too many or too few: a byte that is left
over takes three digits and is read as two bytes, two bytes take two digits and are read as
one (`decode_quantum`).  A run of UTF-16 has an even number of bytes, so it is read with an
odd number then, which is refused (`decodeUTF7Sequence_encode`).  Only runs that come out even
in threes are read back.
-/
import FlyMail.Imap.Utf7

namespace FlyMail.Imap

/-! ### Digits -/

theorem idxOf?_digit {n : Nat} (h : n < 64) : modifiedBase64.idxOf? (digit n) = some n := by
  have hall : ∀ n < 64, modifiedBase64.idxOf? (digit n) = some n := by decide +kernel
  exact hall n h

theorem digit_ne_hyphen {n : Nat} (h : n < 64) : digit n ≠ hyphen := by
  have hall : ∀ n < 64, digit n ≠ hyphen := by decide +kernel
  exact hall n h

/-- A digit that does not complete a byte. -/
theorem decodeDigits_first {n val bits : Nat} (h : n < 64) (hbits : bits + 6 < 8) (rest : Bytes) :
    decodeDigits val bits (digit n :: rest) = decodeDigits (val * 2 ^ 6 + n) (bits + 6) rest := by
  rw [decodeDigits, idxOf?_digit h]
  exact if_neg (Nat.not_le_of_lt hbits)

/-- A digit that completes a byte, and leaves so many bits. -/
theorem decodeDigits_next (left : Nat) {n val bits : Nat} (h : n < 64) (hbits : bits + 6 = left + 8)
    (rest : Bytes) : decodeDigits val bits (digit n :: rest)
      = (decodeDigits ((val * 2 ^ 6 + n) % 2 ^ left) left rest).map
          fun more => UInt8.ofNat ((val * 2 ^ 6 + n) / 2 ^ left) :: more := by
  have hleft : bits + 6 - 8 = left := by omega
  rw [decodeDigits, idxOf?_digit h]
  dsimp only
  rw [if_pos (by omega), hleft]

theorem ofNat_of_eq_toNat {b : UInt8} {n : Nat} (h : n = b.toNat) : UInt8.ofNat n = b := by
  rw [h]
  exact UInt8.ofNat_toNat

/-- **Three bytes are read back.** -/
theorem decode_quantum (b1 b2 b3 : UInt8) (rest : Bytes) :
    decodeDigits 0 0 (quantum b1 b2 b3 0 ++ rest)
      = (decodeDigits 0 0 rest).map fun more => b1 :: b2 :: b3 :: more := by
  have h1 := b1.toNat_lt
  have h2 := b2.toNat_lt
  have h3 := b3.toNat_lt
  let val := b1.toNat * 2 ^ 16 + b2.toNat * 2 ^ 8 + b3.toNat
  have hval : val = b1.toNat * 2 ^ 16 + b2.toNat * 2 ^ 8 + b3.toNat := rfl
  have hquantum : quantum b1 b2 b3 0 ++ rest = digit (val / 2 ^ 18 % 64) ::
      digit (val / 2 ^ 12 % 64) :: digit (val / 2 ^ 6 % 64) :: digit (val % 64) :: rest := rfl
  rw [hquantum, decodeDigits_first (by omega) (by decide), decodeDigits_next 4 (by omega) rfl,
    decodeDigits_next 2 (by omega) rfl, decodeDigits_next 0 (by omega) rfl, Option.map_map,
    Option.map_map, Nat.pow_zero, Nat.mod_one]
  refine congrArg (fun f => Option.map f (decodeDigits 0 0 rest)) (funext fun more => ?_)
  simp only [Function.comp]
  rw [@ofNat_of_eq_toNat b1 _ (by omega), @ofNat_of_eq_toNat b2 _ (by omega),
    @ofNat_of_eq_toNat b3 _ (by omega)]

/-- One byte that is left over is read as two. -/
theorem decode_quantum_one (b1 : UInt8) : decodeDigits 0 0 (quantum b1 0 0 1) = some [b1, 0] := by
  have h1 := b1.toNat_lt
  have hzero : (0 : UInt8).toNat = 0 := rfl
  let val := b1.toNat * 2 ^ 16 + (0 : UInt8).toNat * 2 ^ 8 + (0 : UInt8).toNat
  have hval : val = b1.toNat * 2 ^ 16 + (0 : UInt8).toNat * 2 ^ 8 + (0 : UInt8).toNat := rfl
  have hquantum : quantum b1 0 0 1
      = [digit (val / 2 ^ 18 % 64), digit (val / 2 ^ 12 % 64), digit (val / 2 ^ 6 % 64)] := rfl
  rw [hquantum, decodeDigits_first (by omega) (by decide), decodeDigits_next 4 (by omega) rfl,
    decodeDigits_next 2 (by omega) rfl, decodeDigits]
  simp only [Option.map_some]
  rw [@ofNat_of_eq_toNat b1 _ (by omega), @ofNat_of_eq_toNat 0 _ (by omega)]

/-- Two bytes that are left over are read as one. -/
theorem decode_quantum_two (b1 b2 : UInt8) : decodeDigits 0 0 (quantum b1 b2 0 2) = some [b1] := by
  have h1 := b1.toNat_lt
  have h2 := b2.toNat_lt
  have hzero : (0 : UInt8).toNat = 0 := rfl
  let val := b1.toNat * 2 ^ 16 + b2.toNat * 2 ^ 8 + (0 : UInt8).toNat
  have hval : val = b1.toNat * 2 ^ 16 + b2.toNat * 2 ^ 8 + (0 : UInt8).toNat := rfl
  have hquantum : quantum b1 b2 0 2
      = [digit (val / 2 ^ 18 % 64), digit (val / 2 ^ 12 % 64)] := rfl
  rw [hquantum, decodeDigits_first (by omega) (by decide), decodeDigits_next 4 (by omega) rfl,
    decodeDigits]
  simp only [Option.map_some]
  rw [@ofNat_of_eq_toNat b1 _ (by omega)]

/-- The bytes as they are read when they have been written. -/
def received : Bytes → Bytes
  | [] => []
  | [b1] => [b1, 0]
  | [b1, _] => [b1]
  | b1 :: b2 :: b3 :: rest => b1 :: b2 :: b3 :: received rest

theorem decode_encode (b : Bytes) :
    decodeModifiedBase64 (encodeModifiedBase64 b) = some (received b) := by
  unfold decodeModifiedBase64
  induction b using received.induct with
  | case1 => rfl
  | case2 b1 => exact decode_quantum_one b1
  | case3 b1 b2 => exact decode_quantum_two b1 b2
  | case4 b1 b2 b3 rest ih =>
      rw [encodeModifiedBase64, decode_quantum, ih]
      rfl

/-- **Bytes that come out even in threes are read back**, of others one is missing or one is
too many. -/
theorem received_eq (b : Bytes) :
    (b.length % 3 = 0 → received b = b) ∧
      (b.length % 3 ≠ 0 → (received b).length % 2 ≠ b.length % 2) := by
  induction b using received.induct with
  | case1 => exact ⟨fun _ => rfl, fun h => absurd rfl h⟩
  | case2 b1 => simp [received]
  | case3 b1 b2 => simp [received]
  | case4 b1 b2 b3 rest ih =>
      simp only [received, List.length_cons]
      constructor
      · intro h
        rw [ih.1 (by omega)]
      · intro h
        have hrest := ih.2 (by omega)
        omega

/-! ### Runs -/

theorem hyphen_notMem_encode (b : Bytes) : hyphen ∉ encodeModifiedBase64 b := by
  have hquantum : ∀ b1 b2 b3 pad, hyphen ∉ quantum b1 b2 b3 pad := by
    intro b1 b2 b3 pad hmem
    unfold quantum at hmem
    have hdigit : ∀ n, n < 64 → hyphen ≠ digit n := fun n h => (digit_ne_hyphen h).symm
    simp only [List.mem_append, List.mem_cons, List.not_mem_nil, or_false] at hmem
    rcases hmem with ((h | h) | h) | h
    · exact hdigit _ (Nat.mod_lt _ (by decide)) h
    · exact hdigit _ (Nat.mod_lt _ (by decide)) h
    · split at h
      · exact hdigit _ (Nat.mod_lt _ (by decide)) (List.mem_singleton.mp h)
      · cases h
    · split at h
      · exact hdigit _ (Nat.mod_lt _ (by decide)) (List.mem_singleton.mp h)
      · cases h
  induction b using received.induct with
  | case1 => exact List.not_mem_nil
  | case2 b1 => exact hquantum b1 0 0 1
  | case3 b1 b2 => exact hquantum b1 b2 0 2
  | case4 b1 b2 b3 rest ih =>
      rw [encodeModifiedBase64, List.mem_append]
      exact fun h => h.elim (hquantum b1 b2 b3 0) ih

theorem encode_ne_nil {b : Bytes} (h : b ≠ []) : encodeModifiedBase64 b ≠ [] := by
  cases b using received.induct with
  | case1 => exact absurd rfl h
  | case2 b1 | case3 b1 b2 | case4 b1 b2 b3 rest => exact List.cons_ne_nil _ _

theorem unitsOf_flatMap {us : List Nat} (h : ∀ u ∈ us, u < 0x10000) :
    unitsOf (us.flatMap unitBytes) = us := by
  induction us with
  | nil => rfl
  | cons u rest ih =>
      have hu := h u List.mem_cons_self
      have hhigh : (UInt8.ofNat (u / 2 ^ 8)).toNat = u / 2 ^ 8 :=
        UInt8.toNat_ofNat_of_lt' (by show _ < 256; omega)
      have hlow : (UInt8.ofNat u).toNat = u % 2 ^ 8 := UInt8.toNat_ofNat'
      rw [List.flatMap_cons]
      simp only [unitBytes, List.cons_append, List.nil_append, unitsOf, hhigh, hlow]
      rw [ih fun v hv => h v (List.mem_cons_of_mem _ hv)]
      congr 1
      omega

theorem length_flatMap_unitBytes (us : List Nat) : (us.flatMap unitBytes).length = 2 * us.length := by
  induction us with
  | nil => rfl
  | cons u rest ih =>
      rw [List.flatMap_cons, List.length_append, ih, List.length_cons]
      show 2 + 2 * rest.length = _
      omega

/-- The run comes out even in threes. -/
def Fits (run : Text) : Prop := 3 ∣ (Utf16.encode run).length

instance (run : Text) : Decidable (Fits run) := inferInstanceAs (Decidable (3 ∣ _))

/-- **A run is read back just when it fits**, and refused otherwise. -/
theorem decodeUTF7Sequence_encode (run : Text) :
    decodeUTF7Sequence (encodeModifiedBase64 ((Utf16.encode run).flatMap unitBytes))
      = if Fits run then some (Utf8.encode run) else none := by
  have hlength := length_flatMap_unitBytes (Utf16.encode run)
  obtain ⟨heven, hodd⟩ := received_eq ((Utf16.encode run).flatMap unitBytes)
  unfold decodeUTF7Sequence
  rw [decode_encode]
  dsimp only
  by_cases hfits : Fits run
  · have hdvd : 3 ∣ (Utf16.encode run).length := hfits
    rw [if_pos hfits, heven (by omega), if_neg (by omega),
      unitsOf_flatMap fun u hu => Utf16.lt_of_mem_encode hu, Utf16.decode_encode]
  · have hdvd : ¬ 3 ∣ (Utf16.encode run).length := hfits
    have hparity := hodd (by omega)
    rw [if_neg hfits, if_pos (by omega)]

/-! ### Names -/

theorem decodeFrom_drop (passed rest : Bytes) :
    decodeFrom passed.length (passed ++ rest) = decodeFrom 0 rest := by
  induction passed with
  | nil => rfl
  | cons b more ih => exact ih

theorem decodeFrom_run {run : Text} (hne : run ≠ []) (rest : Bytes) :
    decodeFrom 0 (encodeUTF7Sequence run ++ rest)
      = if Fits run then (decodeFrom 0 rest).map fun more => Utf8.encode run ++ more else none := by
  obtain ⟨seq, hseq⟩ : ∃ seq, seq = encodeModifiedBase64 ((Utf16.encode run).flatMap unitBytes) :=
    ⟨_, rfl⟩
  have hhyphen : ∀ b ∈ seq, (b != hyphen) = true := by
    intro b hb
    rw [bne_iff_ne]
    rintro rfl
    rw [hseq] at hb
    exact hyphen_notMem_encode _ hb
  have htake : (seq ++ hyphen :: rest).takeWhile (fun b => b != hyphen) = seq := by
    rw [List.takeWhile_append_of_pos hhyphen]
    simp
  have hnonempty : seq ≠ [] := by
    obtain ⟨c, more, rfl⟩ := List.exists_cons_of_ne_nil hne
    have hlength := length_flatMap_unitBytes (Utf16.encode (c :: more))
    rw [hseq]
    refine encode_ne_nil (List.ne_nil_of_length_pos ?_)
    rw [hlength, Utf16.encode_cons, List.length_append]
    have hunits := Utf16.units_length_pos c
    omega
  have hhead : (seq ++ hyphen :: rest).head? ≠ some hyphen := by
    obtain ⟨b, more, hcons⟩ := List.exists_cons_of_ne_nil hnonempty
    have hfirst := hhyphen b (by simp [hcons])
    simpa [hcons] using hfirst
  have hwhole : encodeUTF7Sequence run ++ rest = ampersand :: (seq ++ hyphen :: rest) := by
    rw [hseq, encodeUTF7Sequence]
    simp
  have hdrop : decodeFrom (seq.length + 1) (seq ++ hyphen :: rest) = decodeFrom 0 rest := by
    have hpassed := decodeFrom_drop (seq ++ [hyphen]) rest
    simpa using hpassed
  have hdecode := decodeUTF7Sequence_encode run
  rw [← hseq] at hdecode
  rw [hwhole, decodeFrom, if_pos ⟨rfl, by simp⟩, if_neg hhead]
  dsimp only
  rw [htake, if_neg (by simp), hdecode]
  by_cases hfits : Fits run
  · rw [if_pos hfits, if_pos hfits]
    dsimp only
    rw [hdrop]
  · rw [if_neg hfits, if_neg hfits]

theorem decodeFrom_flush (run : Text) (rest : Bytes) :
    decodeFrom 0 (flushRun run ++ rest)
      = if Fits run then (decodeFrom 0 rest).map fun more => Utf8.encode run ++ more else none := by
  unfold flushRun
  by_cases hempty : run = []
  · have hfits : Fits [] := ⟨0, rfl⟩
    rw [if_pos hempty, hempty, if_pos hfits]
    exact Option.map_id'.symm
  · rw [if_neg hempty]
    exact decodeFrom_run hempty rest

/-- An ASCII character is read back. -/
theorem decodeFrom_ascii {c : Char} (h : isASCII c = true) (rest : Bytes) :
    decodeFrom 0 (encodeASCII c ++ rest)
      = (decodeFrom 0 rest).map fun more => Utf8.encode [c] ++ more := by
  have hlt : c.toNat < 0x80 := by
    unfold isASCII at h
    exact Nat.lt_succ_of_le (of_decide_eq_true h)
  unfold encodeASCII
  by_cases hamp : c = '&'
  · rw [if_pos hamp, hamp]
    rfl
  · rw [if_neg hamp, Utf8.encode_ascii hlt, List.singleton_append, decodeFrom, if_neg ?_]
    · rfl
    · rintro ⟨heq, -⟩
      have hnat := congrArg UInt8.toNat heq
      rw [UInt8.toNat_ofNat_of_lt' (by show _ < 256; omega)] at hnat
      exact hamp (Char.toNat_inj.mp hnat)

theorem modifyHead_nil_append (runs : List Text) : runs.modifyHead (fun run => [] ++ run) = runs :=
  congrFun List.modifyHead_id runs

/-- What is read of the rest of a name behind a run. -/
theorem decodeFrom_encodeFrom (s : Text) : ∀ run, decodeFrom 0 (encodeFrom run s)
    = if ∀ r ∈ (s.splitOnP isASCII).modifyHead (run ++ ·), Fits r then some (Utf8.encode (run ++ s))
      else none := by
  induction s with
  | nil =>
      intro run
      have hflush := decodeFrom_flush run []
      rw [List.append_nil] at hflush
      rw [encodeFrom, hflush]
      simp [decodeFrom, Utf8.encode]
  | cons c rest ih =>
      intro run
      rw [encodeFrom, List.splitOnP_cons_eq_if_modifyHead]
      by_cases hascii : isASCII c = true
      · rw [if_pos hascii, if_pos hascii, decodeFrom_flush, decodeFrom_ascii hascii, ih [],
          modifyHead_nil_append, List.modifyHead_cons, List.append_nil]
        by_cases hfits : Fits run
        · by_cases hmore : ∀ r ∈ rest.splitOnP isASCII, Fits r
          · have hsplit : run ++ c :: rest = run ++ ([c] ++ rest) := rfl
            rw [if_pos hfits, if_pos hmore, if_pos (List.forall_mem_cons.mpr ⟨hfits, hmore⟩), hsplit,
              List.nil_append, Utf8.encode_append run, Utf8.encode_append [c]]
            rfl
          · rw [if_pos hfits, if_neg hmore, if_neg fun h => hmore (List.forall_mem_cons.mp h).2]
            rfl
        · rw [if_neg hfits, if_neg fun h => hfits (List.forall_mem_cons.mp h).1]
      · rw [if_neg hascii, if_neg hascii, ih (run ++ [c]), List.modifyHead_modifyHead]
        have hglue : (fun l => run ++ [c] ++ l) = (fun l => run ++ l) ∘ List.cons c := by
          funext l
          simp
        rw [hglue, List.append_assoc, List.singleton_append]

/-- **A name survives just when each of its runs comes out even in threes.** -/
theorem decodeUTF7_encodeUTF7_iff (s : Text) :
    decodeUTF7 (encodeUTF7 s) = some (Utf8.encode s) ↔ ∀ run ∈ s.splitOnP isASCII, Fits run := by
  have hdecode := decodeFrom_encodeFrom s []
  rw [modifyHead_nil_append, List.nil_append] at hdecode
  unfold decodeUTF7 encodeUTF7
  rw [hdecode]
  by_cases hfits : ∀ run ∈ s.splitOnP isASCII, Fits run
  · exact ⟨fun _ => hfits, fun _ => if_pos hfits⟩
  · rw [if_neg hfits]
    exact ⟨fun h => (Option.some_ne_none _ h.symm).elim, fun h => absurd h hfits⟩

/-- **One character, and the name cannot be read.** -/
theorem decodeUTF7_refuses : ¬ ∀ s : Text, decodeUTF7 (encodeUTF7 s) = some (Utf8.encode s) := by
  intro h
  have hnone : decodeUTF7 (encodeUTF7 "中".toList) = none := by decide +kernel
  have hsome := h "中".toList
  rw [hnone] at hsome
  cases hsome

end FlyMail.Imap
