/-
  CompileCache.Proofs.Record — records and their serialized form.

  What is read from the serialized form of a record is the record, and nothing else is read as
  it (`ofBytes_eq_ok_iff`); a header that fits the bytes is enough (`headed_iff`). A record
  packed from a digest and an artifact is one made around the two joined (`pack_eq_around`).
  Any record has a digest exactly if it has an artifact, and its body is then the one followed
  by the other (`body_eq_iff`); so tag, digest and artifact are all there is to a record that
  was packed (`pack_eq_ok_iff`) and to bytes that can be decoded (`decode_eq_ok_iff`).

  Proved: bytes decode to a tag, a digest and a payload exactly if these encode to the bytes,
  and each of the two refuses exactly what does not fit the format (`decode_inverts_encode`);
  the ways to make a record, to read one and to look at its parts agree (`views_agree`).
-/

import CompileCache.Record

namespace CompileCache.Record

/-! ## Serialized records -/

theorem limit_four : Bytes.limit 4 = UInt32.size := rfl

theorem wordAt_zero_toBytes (r : Record) : wordAt 0 r.toBytes = r.tag.toNat := by
  have htake : ((r.toBytes.drop 0).take 4) = Bytes.littleEndian 4 r.tag.toNat := by
    rw [List.drop_zero, toBytes, List.append_assoc, List.take_append_of_le_length (by simp)]
    exact List.take_of_length_le (by simp)
  rw [wordAt, htake, Bytes.ofLittleEndian_littleEndian, limit_four, Nat.mod_eq_of_lt r.tag.toNat_lt]

theorem wordAt_four_toBytes (r : Record) : wordAt 4 r.toBytes = r.body.length := by
  have htake : ((r.toBytes.drop 4).take 4) = Bytes.littleEndian 4 r.body.length := by
    rw [toBytes, List.append_assoc, List.drop_append_of_le_length (by simp),
      List.drop_of_length_le (by simp), List.nil_append, List.take_append_of_le_length (by simp)]
    exact List.take_of_length_le (by simp)
  rw [wordAt, htake, Bytes.ofLittleEndian_littleEndian, limit_four, Nat.mod_eq_of_lt r.fits]

theorem drop_toBytes (r : Record) : r.toBytes.drop headerSize = r.body := by
  rw [toBytes, List.drop_append_of_le_length (by simp [headerSize]),
    List.drop_of_length_le (by simp [headerSize]), List.nil_append]

theorem ofBytes_toBytes (r : Record) : ofBytes r.toBytes = .ok r := by
  have hlong : ¬ r.toBytes.length < headerSize := by
    rw [length_toBytes, size]
    omega
  rw [ofBytes, if_neg hlong, dif_pos (by rw [wordAt_four_toBytes, drop_toBytes])]
  simp [wordAt_zero_toBytes, drop_toBytes]

/-- The four bytes at an offset are those of the number read there. -/
theorem littleEndian_wordAt {offset : Nat} {bs : Bytes} (h : offset + 4 ≤ bs.length) :
    Bytes.littleEndian 4 (wordAt offset bs) = (bs.drop offset).take 4 := by
  have hfour : ((bs.drop offset).take 4).length = 4 := by
    rw [List.length_take, List.length_drop]
    omega
  have hread := Bytes.littleEndian_ofLittleEndian ((bs.drop offset).take 4)
  rwa [hfour] at hread

/-- What reads as a record is its serialized form. -/
theorem toBytes_of_ofBytes {bs : Bytes} {r : Record} (h : ofBytes bs = .ok r) : r.toBytes = bs := by
  unfold ofBytes at h
  split at h
  · cases h
  · next hlong =>
    split at h
    · next hlength =>
      cases h
      have hheader : 8 ≤ bs.length := by
        rw [headerSize] at hlong
        omega
      have htag : (UInt32.ofNat (wordAt 0 bs)).toNat = wordAt 0 bs :=
        UInt32.toNat_ofNat_of_lt' (wordAt_lt 0 bs)
      calc Bytes.littleEndian 4 (UInt32.ofNat (wordAt 0 bs)).toNat ++
            Bytes.littleEndian 4 (bs.drop headerSize).length ++ bs.drop headerSize
          = bs.take 4 ++ (bs.drop 4).take 4 ++ (bs.drop 4).drop 4 := by
            rw [htag, ← hlength, littleEndian_wordAt (by omega), littleEndian_wordAt (by omega),
              List.drop_zero, headerSize, List.drop_drop]
        _ = bs := by rw [List.append_assoc, List.take_append_drop, List.take_append_drop]
    · cases h

theorem ofBytes_eq_ok_iff {bs : Bytes} {r : Record} : ofBytes bs = .ok r ↔ r.toBytes = bs := by
  constructor
  · exact toBytes_of_ofBytes
  · rintro rfl
    exact ofBytes_toBytes r

/-- The bytes begin with the header of a record of this tag, and go on for as long as it says. -/
def Headed (tag : UInt32) (bs : Bytes) : Prop :=
  headerSize ≤ bs.length ∧ wordAt 4 bs = bs.length - headerSize ∧ wordAt 0 bs = tag.toNat

theorem headed_toBytes (r : Record) : Headed r.tag r.toBytes := by
  have hlength : r.toBytes.length = headerSize + r.body.length := length_toBytes r
  refine ⟨by omega, ?_, wordAt_zero_toBytes r⟩
  rw [wordAt_four_toBytes, hlength]
  omega

/-- A header is all that it takes for bytes to be a record. -/
theorem headed_iff {tag : UInt32} {bs : Bytes} :
    Headed tag bs ↔ ∃ r : Record, r.toBytes = bs ∧ r.tag = tag := by
  constructor
  · rintro ⟨hlong, hlength, htag⟩
    have hbody : wordAt 4 bs = (bs.drop headerSize).length := by rw [hlength, List.length_drop]
    refine ⟨⟨UInt32.ofNat (wordAt 0 bs), bs.drop headerSize, hbody ▸ wordAt_lt 4 bs⟩, ?_, ?_⟩
    · rw [← ofBytes_eq_ok_iff, ofBytes, if_neg (Nat.not_lt.2 hlong), dif_pos hbody]
    · rw [htag, UInt32.ofNat_toNat]
  · rintro ⟨r, rfl, rfl⟩
    exact headed_toBytes r

/-! ## Digest and artifact -/

theorem artifact?_eq_some_iff {r : Record} {artifact : Bytes} :
    r.artifact? = some artifact ↔ Digest.size ≤ r.body.length ∧ r.body.drop Digest.size = artifact := by
  by_cases h : Digest.size ≤ r.body.length <;> simp [artifact?, h]

theorem exists_digest?_of_artifact? {r : Record} {artifact : Bytes} (h : r.artifact? = some artifact) :
    ∃ d, r.digest? = some d := by
  have hl := (artifact?_eq_some_iff.1 h).1
  simp [digest?, Digest.atFront?, hl]

theorem isSome_digest?_iff (r : Record) : r.digest?.isSome ↔ Digest.size ≤ r.body.length := by
  unfold digest? Digest.atFront?
  split
  · next hlong => simp [hlong]
  · next hshort => simp [hshort]

theorem isSome_artifact?_iff (r : Record) : r.artifact?.isSome ↔ Digest.size ≤ r.body.length := by
  unfold artifact?
  split
  · next hlong => simp [hlong]
  · next hshort => simp [hshort]

/-- Digest and artifact are what the body is put together from. -/
theorem body_eq_iff {r : Record} {digest : Digest} {artifact : Bytes} :
    r.body = digest.bytes ++ artifact ↔ r.digest? = some digest ∧ r.artifact? = some artifact := by
  have hlength : digest.bytes.length = Digest.size := digest.size_eq
  constructor
  · intro hbody
    simp [digest?, artifact?, Digest.atFront?, hbody, ← hlength]
  · rintro ⟨hdigest, hartifact⟩
    obtain ⟨hlong, hrest⟩ := artifact?_eq_some_iff.1 hartifact
    have hfront : r.body.take Digest.size = digest.bytes := by
      rw [digest?, Digest.atFront?, dif_pos hlong] at hdigest
      cases hdigest
      rfl
    rw [← hfront, ← hrest, List.take_append_drop]

/-- A record has the digest and the artifact that it was packed from. -/
theorem exists_pack (tag : UInt32) (digest : Digest) {artifact : Blob}
    (h : Digest.size + artifact.size < UInt32.size) : ∃ r, pack tag digest artifact = .ok r ∧
      r.tag = tag ∧ r.size = headerSize + Digest.size + artifact.size ∧ r.digest? = some digest ∧
      r.artifact? = some artifact.bytes := by
  have hlength : digest.bytes.length = Digest.size := digest.size_eq
  refine ⟨_, dif_pos h, rfl, ?_, ?_, ?_⟩
  · simp only [size, List.length_append, hlength, Blob.length_bytes, Nat.add_assoc]
  · simp [digest?, Digest.atFront?, ← hlength]
  · simp [artifact?, ← hlength]

/-- What is read from the serialized form are the record's tag, digest and artifact. -/
theorem decode_toBytes {r : Record} {digest : Digest} {artifact : Bytes}
    (hdigest : r.digest? = some digest) (hartifact : r.artifact? = some artifact) :
    decode r.toBytes = .ok ⟨r.tag, digest, artifact⟩ := by
  have hfront : Digest.atFront? r.body = some digest := hdigest
  have hrest := (artifact?_eq_some_iff.1 hartifact).2
  simp [decode, drop_toBytes, hfront, hrest, wordAt_zero_toBytes, wordAt_four_toBytes]

/-! ## Records around a body -/

theorem around_eq_ok_iff {tag : UInt32} {body : Blob} {r : Record} :
    around tag body = .ok r ↔ r.tag = tag ∧ r.body = body.bytes := by
  constructor
  · intro h
    unfold around at h
    split at h
    · cases h
      exact ⟨rfl, rfl⟩
    · cases h
  · rintro ⟨rfl, hbody⟩
    have hfits : body.size < UInt32.size := by
      rw [← Blob.length_bytes, ← hbody]
      exact r.fits
    rw [around, dif_pos hfits]
    obtain ⟨tag, body', fits⟩ := r
    cases hbody
    rfl

theorem around_eq_error_iff {tag : UInt32} {body : Blob} {e : Record.Error} :
    around tag body = .error e ↔ UInt32.size ≤ body.size ∧ e = .oversized body.size := by
  unfold around
  split
  · next hfits => simp [Nat.not_le.2 hfits]
  · next hbig => simp [Nat.not_lt.1 hbig, eq_comm]

/-- The body that a record is packed with. -/
def joined (digest : Digest) (artifact : Blob) : Blob := .append (.leaf digest.bytes) artifact

@[simp] theorem bytes_joined (digest : Digest) (artifact : Blob) :
    (joined digest artifact).bytes = digest.bytes ++ artifact.bytes := rfl

@[simp] theorem size_joined (digest : Digest) (artifact : Blob) :
    (joined digest artifact).size = Digest.size + artifact.size := by
  simp [joined, Blob.size, digest.size_eq, Digest.size]

/-- To pack a record is to put it around its digest and artifact; only what a refusal
    complains of is another length. -/
theorem pack_eq_around (tag : UInt32) (digest : Digest) (artifact : Blob) :
    pack tag digest artifact =
      (around tag (joined digest artifact)).mapError fun _ => .oversized artifact.size := by
  unfold pack around
  simp only [size_joined]
  split
  · rfl
  · rfl

/-! ## Encoding and decoding -/

theorem pack_eq_ok_iff_body {tag : UInt32} {digest : Digest} {artifact : Blob} {r : Record} :
    pack tag digest artifact = .ok r ↔ r.tag = tag ∧ r.body = digest.bytes ++ artifact.bytes := by
  rw [← bytes_joined, ← around_eq_ok_iff, pack_eq_around]
  cases around tag (joined digest artifact) with
  | ok packed => exact Iff.rfl
  | error e => exact iff_of_false nofun nofun

theorem pack_eq_ok_iff {tag : UInt32} {digest : Digest} {artifact : Blob} {r : Record} :
    pack tag digest artifact = .ok r ↔
      r.tag = tag ∧ r.digest? = some digest ∧ r.artifact? = some artifact.bytes := by
  rw [← body_eq_iff, pack_eq_ok_iff_body]

/-- What a digest can be read from is long enough. -/
theorem atFront?_eq_none_iff {bs : Bytes} : Digest.atFront? bs = none ↔ bs.length < Digest.size := by
  unfold Digest.atFront?
  split
  · next hlong => simp only [reduceCtorEq, false_iff]; omega
  · next hshort => simp only [true_iff]; omega

/-- What can be decoded is a record with a digest and an artifact. -/
theorem decode_eq_ok_iff {bs : Bytes} {c : Contents} :
    decode bs = .ok c ↔ ∃ r, ofBytes bs = .ok r ∧ r.tag = c.tag ∧ r.digest? = some c.digest ∧
      r.artifact? = some c.payload := by
  constructor
  · intro h
    unfold decode at h
    dsimp only at h
    split at h
    · cases h
    · next digest hfront =>
      split at h
      · next hlength =>
        cases h
        have hlong : Digest.size ≤ (bs.drop headerSize).length := by
          by_cases hshort : (bs.drop headerSize).length < Digest.size
          · rw [atFront?_eq_none_iff.2 hshort] at hfront
            cases hfront
          · omega
        have hheader : ¬ bs.length < headerSize := by
          have hsize : Digest.size = 32 := rfl
          rw [List.length_drop] at hlong
          omega
        refine ⟨⟨_, _, hlength ▸ wordAt_lt 4 bs⟩, ?_, rfl, hfront, artifact?_eq_some_iff.2 ⟨hlong, rfl⟩⟩
        rw [ofBytes, if_neg hheader, dif_pos hlength]
      · cases h
  · rintro ⟨r, hr, htag, hdigest, hartifact⟩
    rw [← toBytes_of_ofBytes hr, decode_toBytes hdigest hartifact, htag]

/-- What is refused is too short, or else not as long as its header says. -/
theorem decode_eq_error_iff {bs : Bytes} {e : Record.Error} :
    decode bs = .error e ↔
      bs.length < headerSize + Digest.size ∧ e = .truncated bs.length (headerSize + Digest.size) ∨
      headerSize + Digest.size ≤ bs.length ∧ wordAt 4 bs ≠ bs.length - headerSize ∧
        e = .wrongLength (wordAt 4 bs) (bs.length - headerSize) := by
  have hsize : Digest.size = 32 := rfl
  have hdrop : (bs.drop headerSize).length = bs.length - headerSize := List.length_drop
  unfold decode
  dsimp only
  rw [hdrop]
  split
  · next hfront =>
    have hshort := atFront?_eq_none_iff.1 hfront
    have hless : bs.length < headerSize + Digest.size := by omega
    simp only [hless, true_and, Nat.not_le.2 hless, false_and, or_false, Except.error.injEq, eq_comm]
  · next digest hfront =>
    have hlong : headerSize + Digest.size ≤ bs.length := by
      by_cases hshort : (bs.drop headerSize).length < Digest.size
      · rw [atFront?_eq_none_iff.2 hshort] at hfront
        cases hfront
      · omega
    simp only [hlong, true_and, Nat.not_lt.2 hlong, false_and, false_or]
    by_cases hlength : wordAt 4 bs = bs.length - headerSize
    · simp [hlength]
    · simp [hlength, eq_comm]

theorem pack_eq_error_iff {tag : UInt32} {digest : Digest} {artifact : Blob} {e : Record.Error} :
    pack tag digest artifact = .error e ↔
      UInt32.size ≤ Digest.size + artifact.size ∧ e = .oversized artifact.size := by
  unfold pack
  split
  · next hfits => simp [Nat.not_le.2 hfits]
  · next hbig => simp [Nat.not_lt.1 hbig, eq_comm]

theorem encode_eq_error_iff {tag : UInt32} {digest : Digest} {payload : Blob} {e : Record.Error} :
    encode tag digest payload = .error e ↔
      UInt32.size ≤ Digest.size + payload.size ∧ e = .oversized payload.size := by
  rw [← pack_eq_error_iff, encode]
  cases pack tag digest payload with
  | ok r => simp [Except.map]
  | error e' => simp [Except.map]

theorem encode_eq_ok_iff {tag : UInt32} {digest : Digest} {payload : Blob} {bs : Bytes} :
    encode tag digest payload = .ok bs ↔ ∃ r, pack tag digest payload = .ok r ∧ r.toBytes = bs := by
  unfold encode
  cases pack tag digest payload with
  | error e => simp [Except.map]
  | ok r => simp [Except.map]

/-! ## One record, many views -/

/-- What the bytes say at their fixed places is what the record says. -/
theorem places_of_ofBytes {bs : Bytes} {r : Record} (h : ofBytes bs = .ok r) :
    wordAt 0 bs = r.tag.toNat ∧ wordAt 4 bs = r.body.length ∧ bs.drop headerSize = r.body ∧
      bs.length = headerSize + r.body.length := by
  rw [← toBytes_of_ofBytes h]
  exact ⟨wordAt_zero_toBytes r, wordAt_four_toBytes r, drop_toBytes r, length_toBytes r⟩

/-- Any bytes, and any parts to make a record of. -/
theorem views_agree (bs : Bytes) (tag : UInt32) (digest : Digest) (artifact : Blob) :
    -- Bytes are read by their header exactly if they were written around a body, and the
    -- record gives tag, body and bytes back.
    ((∃ r, ofBytes bs = .ok r) ↔
      ∃ (t : UInt32) (body : Blob) (r : Record), body.size < UInt32.size ∧
        around t body = .ok r ∧ r.toBytes = bs) ∧
    (∀ (t : UInt32) (body : Blob) (r : Record), around t body = .ok r → r.toBytes = bs →
      ofBytes bs = .ok r ∧ r.tag = t ∧ r.body = body.bytes ∧ r.body.length = body.size) ∧
    -- Each view is found at its own place in the bytes.
    (∀ r, ofBytes bs = .ok r → r.toBytes = bs ∧ wordAt 0 bs = r.tag.toNat ∧
      wordAt 4 bs = r.body.length ∧ bs.drop 8 = r.body ∧ bs.length = 8 + r.body.length) ∧
    -- Bytes are decoded exactly if they are read so and the record has a digest.
    ((∃ c, decode bs = .ok c) ↔ ∃ r, ofBytes bs = .ok r ∧ r.digest?.isSome) ∧
    (∀ c r, decode bs = .ok c → ofBytes bs = .ok r →
      r.tag = c.tag ∧ r.digest? = some c.digest ∧ r.artifact? = some c.payload) ∧
    -- Digest and artifact make up the body, if it has room for a digest.
    (∀ r : Record, (r.digest?.isSome ↔ 32 ≤ r.body.length) ∧
      (r.artifact?.isSome ↔ 32 ≤ r.body.length) ∧
      ∀ (d : Digest) (a : Bytes),
        r.digest? = some d ∧ r.artifact? = some a ↔ r.body = d.bytes ++ a) ∧
    -- It does not matter whether digest and artifact are joined before.
    (∀ e, pack tag digest artifact = .error e ↔
      UInt32.size ≤ 32 + artifact.size ∧ e = .oversized artifact.size) ∧
    (∀ e, around tag (joined digest artifact) = .error e ↔
      UInt32.size ≤ 32 + artifact.size ∧ e = .oversized (32 + artifact.size)) ∧
    ∀ r, pack tag digest artifact = .ok r ↔ around tag (joined digest artifact) = .ok r := by
  have hread : ∀ r, ofBytes bs = .ok r ↔ r.toBytes = bs := fun r => ofBytes_eq_ok_iff
  refine ⟨?_, ?_, ?_, ?_, ?_, ?_, fun e => pack_eq_error_iff, ?_, ?_⟩
  · constructor
    · rintro ⟨r, hr⟩
      exact ⟨r.tag, .leaf r.body, r, r.fits, around_eq_ok_iff.2 ⟨rfl, rfl⟩, (hread r).1 hr⟩
    · rintro ⟨-, -, r, -, -, hr⟩
      exact ⟨r, (hread r).2 hr⟩
  · intro t body r haround hr
    obtain ⟨htag, hbody⟩ := around_eq_ok_iff.1 haround
    exact ⟨(hread r).2 hr, htag, hbody, by rw [hbody, Blob.length_bytes]⟩
  · intro r hr
    exact ⟨(hread r).1 hr, places_of_ofBytes hr⟩
  · constructor
    · rintro ⟨c, hc⟩
      obtain ⟨r, hr, -, hdigest, -⟩ := decode_eq_ok_iff.1 hc
      exact ⟨r, hr, by rw [hdigest, Option.isSome_some]⟩
    · rintro ⟨r, hr, hsome⟩
      obtain ⟨d, hdigest⟩ := Option.isSome_iff_exists.1 hsome
      obtain ⟨a, hartifact⟩ := Option.isSome_iff_exists.1
        ((isSome_artifact?_iff r).2 ((isSome_digest?_iff r).1 hsome))
      exact ⟨⟨r.tag, d, a⟩, decode_eq_ok_iff.2 ⟨r, hr, rfl, hdigest, hartifact⟩⟩
  · intro c r hc hr
    obtain ⟨r', hr', hparts⟩ := decode_eq_ok_iff.1 hc
    rw [hr] at hr'
    cases hr'
    exact hparts
  · intro r
    exact ⟨isSome_digest?_iff r, isSome_artifact?_iff r, fun d a => body_eq_iff.symm⟩
  · intro e
    rw [around_eq_error_iff, size_joined]
    rfl
  · intro r
    rw [pack_eq_ok_iff_body, around_eq_ok_iff, bytes_joined]

/-! ## A format and its inverse -/

/-- Decoding undoes encoding and nothing else can be decoded; each refuses exactly what does not
    fit the format. -/
theorem decode_inverts_encode (bs : Bytes) (tag : UInt32) (digest : Digest) (payload : Blob) :
    -- reading and writing
    (decode bs = .ok ⟨tag, digest, payload.bytes⟩ ↔ encode tag digest payload = .ok bs) ∧
    (encode tag digest payload = .ok bs ↔ 32 + payload.size < UInt32.size ∧
      bs = Bytes.littleEndian 4 tag.toNat ++ Bytes.littleEndian 4 (32 + payload.size) ++
        (digest.bytes ++ payload.bytes)) ∧
    -- what is not written
    (∀ e, encode tag digest payload = .error e ↔
      UInt32.size ≤ 32 + payload.size ∧ e = .oversized payload.size) ∧
    -- what is not read; a short input is refused before its header is looked at
    ∀ e, decode bs = .error e ↔ bs.length < 40 ∧ e = .truncated bs.length 40 ∨
      40 ≤ bs.length ∧ wordAt 4 bs ≠ bs.length - 8 ∧ e = .wrongLength (wordAt 4 bs) (bs.length - 8) := by
  refine ⟨?_, ?_, fun e => encode_eq_error_iff, fun e => decode_eq_error_iff⟩
  · rw [decode_eq_ok_iff, encode_eq_ok_iff]
    constructor
    · rintro ⟨r, hr, hparts⟩
      exact ⟨r, pack_eq_ok_iff.2 hparts, toBytes_of_ofBytes hr⟩
    · rintro ⟨r, hpacked, hr⟩
      exact ⟨r, ofBytes_eq_ok_iff.2 hr, pack_eq_ok_iff.1 hpacked⟩
  · have hlength : (digest.bytes ++ payload.bytes).length = 32 + payload.size := by
      rw [List.length_append, digest.size_eq, Blob.length_bytes]
    unfold encode pack
    split
    · next hfits =>
      have hfits' : 32 + payload.size < UInt32.size := hfits
      simp only [Except.map, Except.ok.injEq, toBytes, hlength, hfits', true_and, eq_comm]
    · next hbig =>
      have hbig' : ¬ 32 + payload.size < UInt32.size := hbig
      simp only [Except.map, reduceCtorEq, hbig', false_and]

end CompileCache.Record
