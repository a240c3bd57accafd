namespace StatsDaemon.Text

def encode (text : List Char) : List UInt8 :=
  (String.ofList text).toUTF8.toList

def decode? (bytes : List UInt8) : Option (List Char) :=
  (String.fromUTF8? (ByteArray.mk bytes.toArray)).map String.toList

theorem toList_loop (bytes : ByteArray) (i : Nat) (taken : List UInt8) :
    ByteArray.toList.loop bytes i taken = taken.reverse ++ bytes.data.toList.drop i := by
  fun_induction ByteArray.toList.loop bytes i taken with
  | case1 i taken hlt ih =>
    have hlength : i < bytes.data.toList.length := by simpa using hlt
    rw [ih, List.drop_eq_getElem_cons hlength]
    simp [ByteArray.get!, hlt]
  | case2 i taken hge =>
    have hlength : bytes.data.toList.length ≤ i := by simpa using Nat.le_of_not_lt hge
    rw [List.drop_of_length_le hlength, List.append_nil]

theorem bytes_toList (bytes : ByteArray) : bytes.toList = bytes.data.toList :=
  toList_loop bytes 0 []

theorem mk_encode (text : List Char) : ByteArray.mk (encode text).toArray = text.utf8Encode := by
  rw [encode, bytes_toList]
  rfl

theorem encode_eq_flatMap (text : List Char) : encode text = text.flatMap String.utf8EncodeChar := by
  rw [encode, bytes_toList]
  exact List.toList_data_toByteArray

theorem decode?_eq_some_iff {bytes : List UInt8} {text : List Char} :
    decode? bytes = some text ↔ bytes = encode text := by
  unfold decode? String.fromUTF8?
  constructor
  · intro h
    split at h
    · simp only [Option.map_some, Option.some.injEq] at h
      rw [encode, ← h, String.ofList_toList, bytes_toList]
      rfl
    · cases h
  · rintro rfl
    have hvalid : (ByteArray.mk (encode text).toArray).IsValidUTF8 := ⟨text, mk_encode text⟩
    have hstring : String.fromUTF8 (ByteArray.mk (encode text).toArray) hvalid = String.ofList text :=
      String.toByteArray_inj.mp (mk_encode text)
    rw [dif_pos hvalid, Option.map_some, hstring, String.toList_ofList]

theorem decode?_eq_none_iff {bytes : List UInt8} :
    decode? bytes = none ↔ ∀ text, bytes ≠ encode text := by
  simp [Option.eq_none_iff_forall_not_mem, decode?_eq_some_iff]

theorem toNat_of_mem_utf8EncodeChar {c : Char} {byte : UInt8} (hbyte : byte ∈ String.utf8EncodeChar c)
    (hascii : byte.toNat < 128) : c.toNat = byte.toNat := by
  have hval : c.toNat = c.val.toNat := rfl
  unfold String.utf8EncodeChar at hbyte
  dsimp only at hbyte
  split at hbyte
  · obtain rfl := List.mem_singleton.mp hbyte
    rw [hval, UInt8.toNat_ofNat']
    omega
  · have hbeyond : 128 ≤ byte.toNat := by
      split at hbyte
      · simp only [List.mem_cons, List.not_mem_nil, or_false] at hbyte
        rcases hbyte with rfl | rfl <;> rw [UInt8.toNat_ofNat'] <;> omega
      · split at hbyte
        · simp only [List.mem_cons, List.not_mem_nil, or_false] at hbyte
          rcases hbyte with rfl | rfl | rfl <;> rw [UInt8.toNat_ofNat'] <;> omega
        · simp only [List.mem_cons, List.not_mem_nil, or_false] at hbyte
          rcases hbyte with rfl | rfl | rfl | rfl <;> rw [UInt8.toNat_ofNat'] <;> omega
    omega

theorem notMem_encode {text : List Char} {c : Char} (hascii : c.toNat < 128) (h : c ∉ text) :
    UInt8.ofNat c.toNat ∉ encode text := by
  have hbyte : (UInt8.ofNat c.toNat).toNat = c.toNat := by
    rw [UInt8.toNat_ofNat']
    omega
  rw [encode_eq_flatMap, List.mem_flatMap]
  rintro ⟨d, hd, hmem⟩
  have hsame := toNat_of_mem_utf8EncodeChar hmem (by omega)
  obtain rfl : d = c := Char.toNat_inj.mp (hsame.trans hbyte)
  exact h hd

end StatsDaemon.Text
