import TelemetryBands.Feed

/-!
# Texts as bytes

Bytes are a text if they are the encodings of characters, one after the other, and then they are
this text. The encoding of a character below 128 is its number, and no other encoding has a byte
below 128. So a byte below 128 stands for its character wherever it stands.
-/

namespace TelemetryBands.Feed

variable {bytes : List UInt8} {text : String} {cs : List Char} {c : Char} {b : UInt8}

/-- The bytes of characters. -/
def bytesOf (cs : List Char) : List UInt8 :=
  cs.flatMap String.utf8EncodeChar

theorem bytesOf_append (left right : List Char) :
    bytesOf (left ++ right) = bytesOf left ++ bytesOf right :=
  List.flatMap_append

theorem toList_toByteArray (text : String) :
    text.toByteArray.data.toList = bytesOf text.toList := by
  rw [← String.utf8Encode_toList, List.utf8Encode, List.toList_data_toByteArray]
  rfl

/-- Bytes are a text if they are the bytes of its characters. -/
theorem textOf?_eq_some_iff : textOf? bytes = some text ↔ bytes = bytesOf text.toList := by
  have hself : ByteArray.mk (bytesOf text.toList).toArray = text.toByteArray := by
    rw [← toList_toByteArray, Array.toArray_toList]
  unfold textOf? String.fromUTF8?
  constructor
  · intro h
    split at h
    · obtain rfl := Option.some.inj h
      rw [← toList_toByteArray]
      rfl
    · cases h
  · rintro rfl
    simp only [hself, dif_pos text.isValidUTF8]
    rfl

theorem textOf?_bytesOf (cs : List Char) : textOf? (bytesOf cs) = some (String.ofList cs) :=
  textOf?_eq_some_iff.mpr (by rw [String.toList_ofList])

/-- A character below 128 is encoded by its number. -/
theorem encode_of_lt (hc : c.toNat < 128) : String.utf8EncodeChar c = [UInt8.ofNat c.toNat] := by
  have hlow : c.val.toNat ≤ 127 := Nat.le_of_lt_succ hc
  unfold String.utf8EncodeChar
  simp only [if_pos hlow]
  rfl

/-- The bytes of every other character are not below 128. -/
theorem le_of_mem_encode (hc : 128 ≤ c.toNat) (h : b ∈ String.utf8EncodeChar c) :
    128 ≤ b.toNat := by
  have hbyte : ∀ n base : Nat, 128 ≤ base → base + n < 256 →
      128 ≤ (UInt8.ofNat (n + base)).toNat := by
    intro n base hbase hlt
    rw [UInt8.toNat_ofNat']
    omega
  have hhigh : ¬ c.val.toNat ≤ 127 := Nat.not_le.mpr hc
  unfold String.utf8EncodeChar at h
  simp only [if_neg hhigh] at h
  split at h
  · simp only [List.mem_cons, List.not_mem_nil, or_false] at h
    rcases h with rfl | rfl <;> apply hbyte <;> omega
  · split at h
    · simp only [List.mem_cons, List.not_mem_nil, or_false] at h
      rcases h with rfl | rfl | rfl <;> apply hbyte <;> omega
    · simp only [List.mem_cons, List.not_mem_nil, or_false] at h
      rcases h with rfl | rfl | rfl | rfl <;> apply hbyte <;> omega

/-- A byte below 128 stands alone for its character. -/
theorem encode_of_mem (hb : b.toNat < 128) (h : b ∈ String.utf8EncodeChar c) :
    String.utf8EncodeChar c = [b] ∧ c = Char.ofNat b.toNat := by
  have hc : c.toNat < 128 := Nat.lt_of_not_le fun hle =>
    absurd (le_of_mem_encode hle h) (Nat.not_le.mpr hb)
  rw [encode_of_lt hc] at h ⊢
  obtain rfl := List.mem_singleton.mp h
  refine ⟨rfl, ?_⟩
  rw [UInt8.toNat_ofNat', Nat.mod_eq_of_lt (by omega), Char.ofNat_toNat]

/-- A byte below 128 is among the bytes of a text only if its character is in the text. -/
theorem mem_of_mem_bytesOf (hb : b.toNat < 128) (h : b ∈ bytesOf cs) : Char.ofNat b.toNat ∈ cs := by
  obtain ⟨c, hc, hbc⟩ := List.mem_flatMap.mp h
  exact (encode_of_mem hb hbc).2 ▸ hc

/-- A character below 128 in a text has its byte among the bytes of the text. -/
theorem mem_bytesOf_of_mem (hc : c.toNat < 128) (h : c ∈ cs) :
    UInt8.ofNat c.toNat ∈ bytesOf cs := by
  refine List.mem_flatMap.mpr ⟨c, h, ?_⟩
  rw [encode_of_lt hc]
  exact List.mem_singleton.mpr rfl

/-- A byte below 128 parts the bytes of a text where its character parts the text. -/
theorem exists_of_bytesOf_eq {left right : List UInt8} (hb : b.toNat < 128)
    (h : bytesOf cs = left ++ b :: right) :
    ∃ before after, cs = before ++ Char.ofNat b.toNat :: after ∧
      left = bytesOf before ∧ right = bytesOf after := by
  induction cs generalizing left with
  | nil => simp [bytesOf] at h
  | cons c cs ih =>
    have hbehind : ∀ left' : List UInt8, left = String.utf8EncodeChar c ++ left' →
        bytesOf cs = left' ++ b :: right →
        ∃ before after, c :: cs = before ++ Char.ofNat b.toNat :: after ∧
          left = bytesOf before ∧ right = bytesOf after := by
      intro left' hleft hcs
      obtain ⟨before, after, rfl, rfl, hright⟩ := ih hcs
      exact ⟨c :: before, after, rfl, hleft, hright⟩
    rcases List.append_eq_append_iff.mp h with ⟨left', hleft, hcs⟩ | ⟨inside, hc, hcs⟩
    · exact hbehind left' hleft hcs
    · cases inside with
      | nil => exact hbehind [] (by simp [hc]) hcs.symm
      | cons b' inside =>
        -- The byte is one of the encoding of `c`, so it is all of it.
        obtain ⟨rfl, hright⟩ := List.cons.inj hcs
        obtain ⟨hencode, hchar⟩ := encode_of_mem (b := b) (c := c) hb (by rw [hc]; simp)
        rw [hencode] at hc
        have hlength := congrArg List.length hc
        simp only [List.length_append, List.length_cons, List.length_nil] at hlength
        have hleft : left = [] := List.length_eq_zero_iff.mp (by omega)
        have hinside : inside = [] := List.length_eq_zero_iff.mp (by omega)
        refine ⟨[], cs, by rw [hchar]; rfl, hleft, ?_⟩
        rw [hright, hinside]
        rfl

end TelemetryBands.Feed
