import TopDown.Proofs.Lexicon.Lexeme
import TopDown.Proofs.Render.Reader
import TopDown.Render.Link

/-!
# Reading a link

The fragment of a link is percent-decoded to the UTF-8 bytes of the text that the link was made for.
A byte is written as itself only if it is an unreserved character, and the percent sign is none, so
that a percent sign in a fragment always opens a triple. A link is made exactly if it is short
enough, the mark before the fragment included.
-/

namespace TopDown

namespace Text

/-- An ASCII letter or digit, or one of four marks. -/
def Unreserved (c : Char) : Prop :=
  c.isAlpha = true ∨ c.isDigit = true ∨ c = '_' ∨ c = '.' ∨ c = '-' ∨ c = '~'

/-- A hexadecimal digit that is no lower-case letter. -/
def UpperHex (c : Char) : Prop :=
  c.isDigit = true ∨ 'A' ≤ c ∧ c ≤ 'F'

instance (c : Char) : Decidable (UpperHex c) :=
  inferInstanceAs (Decidable (c.isDigit = true ∨ 'A' ≤ c ∧ c ≤ 'F'))

/-- The text is made of unreserved characters and of percent signs with two digits each. -/
inductive Encoded : List Char → Prop
  | nil : Encoded []
  | unreserved {c : Char} {rest : List Char} (hc : Unreserved c) (hrest : Encoded rest) :
      Encoded (c :: rest)
  | triple {high low : Char} {rest : List Char} (hhigh : UpperHex high) (hlow : UpperHex low)
      (hrest : Encoded rest) : Encoded ('%' :: high :: low :: rest)

/-- The byte that two hexadecimal digits of either case stand for. -/
def hexByte? (high low : Char) : Option UInt8 :=
  (Document.hexValue? [high, low]).map UInt8.ofNat

/-- The bytes that a percent-encoded text stands for. A percent sign needs two digits after it, and
any other character is one of ASCII. -/
def percentDecode? : List Char → Option (List UInt8)
  | [] => some []
  | '%' :: high :: low :: rest => do
    let byte ← hexByte? high low
    let later ← percentDecode? rest
    return byte :: later
  | c :: rest => do
    if c = '%' ∨ 0x80 ≤ c.toNat then none
    let later ← percentDecode? rest
    return UInt8.ofNat c.toNat :: later

/-- The text of UTF-8 bytes, if they are one. -/
def decodeUTF8? (bytes : List UInt8) : Option String :=
  String.fromUTF8? ⟨bytes.toArray⟩

/-! ## Bytes -/

theorem unreserved_of_isUnreserved {c : Char} (h : isUnreserved c = true) : Unreserved c := by
  have hmarks : "_.-~".toList = ['_', '.', '-', '~'] := by decide
  rw [isUnreserved, Char.isAlphanum, hmarks] at h
  simpa [Unreserved, or_assoc] using h

theorem Unreserved.ascii {c : Char} (h : Unreserved c) : c ≠ '%' ∧ c.toNat < 0x80 := by
  unfold Unreserved at h
  rw [Lexeme.isAlpha_iff, Lexeme.isDigit_iff] at h
  rcases h with hletter | hdigit | rfl | rfl | rfl | rfl
  · exact ⟨ne_of_apply_ne Char.toNat (show c.toNat ≠ 37 by omega), by omega⟩
  · exact ⟨ne_of_apply_ne Char.toNat (show c.toNat ≠ 37 by omega), by omega⟩
  all_goals decide

theorem upperHex_digitChar : ∀ n < 16, UpperHex (Nat.digitChar n).toUpper ∧
    Document.hexDigit? (Nat.digitChar n).toUpper = some n := by
  decide

theorem toNat_ofNat_byte (b : UInt8) : (Char.ofNat b.toNat).toNat = b.toNat := by
  have hlt := b.toNat_lt
  have hvalid : b.toNat.isValidChar := Or.inl (by omega)
  rw [Char.ofNat, dif_pos hvalid]
  rfl

/-- A byte is written as the unreserved character that it is, or as a triple. -/
theorem percentByte_cases (b : UInt8) :
    (∃ c, percentByte b = [c] ∧ Unreserved c ∧ UInt8.ofNat c.toNat = b) ∨
      ∃ high low, percentByte b = ['%', high, low] ∧ UpperHex high ∧ UpperHex low ∧
        hexByte? high low = some b := by
  by_cases hplain : isUnreserved (Char.ofNat b.toNat) = true
  · refine Or.inl ⟨Char.ofNat b.toNat, by rw [percentByte, if_pos hplain],
      unreserved_of_isUnreserved hplain, ?_⟩
    rw [toNat_ofNat_byte, UInt8.ofNat_toNat]
  · obtain ⟨hhigh, hhighValue⟩ := upperHex_digitChar (b.toNat / 16 % 16) (Nat.mod_lt _ (by decide))
    obtain ⟨hlow, hlowValue⟩ := upperHex_digitChar (b.toNat % 16) (Nat.mod_lt _ (by decide))
    refine Or.inr ⟨_, _, by rw [percentByte, if_neg hplain]; rfl, hhigh, hlow, ?_⟩
    have hvalue : 16 * (b.toNat / 16 % 16) + b.toNat % 16 = b.toNat := by
      have hlt := b.toNat_lt
      omega
    simp [hexByte?, Document.hexValue?, hhighValue, hlowValue, hvalue]

/-! ## Texts -/

theorem percentDecode?_percentByte (b : UInt8) (rest : List Char) :
    percentDecode? (percentByte b ++ rest) = (percentDecode? rest).map (b :: ·) := by
  rcases percentByte_cases b with ⟨c, hbyte, hc, hvalue⟩ | ⟨high, low, hbyte, _, _, hvalue⟩
  · obtain ⟨hpercent, hascii⟩ := hc.ascii
    have hplain : ¬ (c = '%' ∨ 0x80 ≤ c.toNat) := not_or.mpr ⟨hpercent, by omega⟩
    rw [hbyte, List.singleton_append, percentDecode?]
    · simp only [if_neg hplain, hvalue]
      cases percentDecode? rest <;> rfl
    · exact fun high low tail hc _ => hpercent hc
  · rw [hbyte]
    show (do
      let byte ← hexByte? high low
      let later ← percentDecode? rest
      return byte :: later) = _
    rw [hvalue]
    cases percentDecode? rest <;> rfl

theorem percentDecode?_flatMap (bytes : List UInt8) :
    percentDecode? (bytes.flatMap percentByte) = some bytes := by
  induction bytes with
  | nil => rfl
  | cons b bytes ih => rw [List.flatMap_cons, percentDecode?_percentByte, ih, Option.map_some]

theorem encoded_flatMap (bytes : List UInt8) : Encoded (bytes.flatMap percentByte) := by
  induction bytes with
  | nil => exact .nil
  | cons b bytes ih =>
    rw [List.flatMap_cons]
    rcases percentByte_cases b with ⟨c, hbyte, hc, _⟩ | ⟨high, low, hbyte, hhigh, hlow, _⟩
    · rw [hbyte]
      exact .unreserved hc ih
    · rw [hbyte]
      exact .triple hhigh hlow ih

theorem decodeUTF8?_toUTF8 (text : String) : decodeUTF8? text.toUTF8.data.toList = some text :=
  dif_pos text.isValidUTF8

/-- What is encoded is decoded again. -/
theorem percentDecode?_percentEncode (text : String) :
    (percentDecode? (percentEncode text)).bind decodeUTF8? = some text := by
  rw [percentEncode, percentDecode?_flatMap, Option.bind_some, decodeUTF8?_toUTF8]

end Text

namespace Link

/-- What a link has after the first mark. -/
def fragment (link : String) : List Char :=
  (link.toList.dropWhile (· ≠ '#')).tail

/-- The address, the mark and the encoded text. -/
def url (dot : String) : String :=
  home ++ "#" ++ String.ofList (Text.percentEncode dot)

theorem fragment_url (dot : String) : fragment (url dot) = Text.percentEncode dot := by
  have hhome : home.toList.all (· ≠ '#') = true := by decide
  have hmark : "#".toList = ['#'] := by decide
  rw [fragment, url, String.toList_append, String.toList_append, hmark, String.toList_ofList,
    List.append_assoc, List.dropWhile_append_of_pos (List.all_eq_true.mp hhome)]
  rfl

theorem length_url (dot : String) :
    (url dot).length = home.length + 1 + (Text.percentEncode dot).length := by
  have hmark : "#".length = 1 := by decide
  rw [url, String.length_append, String.length_append, hmark, String.length_ofList]

/-- There is a link unless it is too long. -/
theorem ofDot?_eq (dot : String) :
    ofDot? dot = if (url dot).length ≤ limit then some (url dot) else none := by
  have hlength := length_url dot
  -- The mark is the one character that the test of the length leaves out.
  by_cases hfits : (url dot).length ≤ limit
  · rw [ofDot?, if_neg (by omega), if_pos hfits]
    rfl
  · rw [ofDot?, if_pos (by omega), if_neg hfits]

/-- There is a link for a text exactly if the address, the mark and the encoded text have at most as
many characters as a link may have, and then it is made of these. Its fragment has no character but
those of the encoding, and is decoded to the text. -/
theorem ofDot?_exact (dot : String) :
    ofDot? dot = (if (url dot).length ≤ limit then some (url dot) else none) ∧
      ∀ link, ofDot? dot = some link → Text.Encoded (fragment link) ∧
        (Text.percentDecode? (fragment link)).bind Text.decodeUTF8? = some dot := by
  refine ⟨ofDot?_eq dot, fun link hlink => ?_⟩
  obtain rfl : url dot = link := by
    rw [ofDot?_eq] at hlink
    split at hlink
    · exact Option.some.inj hlink
    · cases hlink
  rw [fragment_url]
  exact ⟨Text.encoded_flatMap _, Text.percentDecode?_percentEncode dot⟩

/-- A percent sign and a character of two bytes are read back from their link. -/
theorem ofDot?_exact_percent :
    ofDot? "%\u00e9~" = some "https://dreampuf.github.io/GraphvizOnline/#%25%C3%A9~" ∧
      Text.Encoded (fragment "https://dreampuf.github.io/GraphvizOnline/#%25%C3%A9~") ∧
      (Text.percentDecode? (fragment "https://dreampuf.github.io/GraphvizOnline/#%25%C3%A9~")).bind
        Text.decodeUTF8? = some "%\u00e9~" := by
  have hlink : ofDot? "%\u00e9~" =
      some "https://dreampuf.github.io/GraphvizOnline/#%25%C3%A9~" := by
    decide +kernel
  obtain ⟨_, hreads⟩ := ofDot?_exact "%\u00e9~"
  exact ⟨hlink, hreads _ hlink⟩

end Link

end TopDown
