import StepGraph.Artifact.Basic

/-!
# The bytes of artifacts

A reader finds the end of a form when it reads the value from every list of
bytes that begins with the form, leaves what follows, and reads nothing where
the form breaks off (`Delimited`). Readers in a row find the ends of forms in
a row (`Delimited.bind`). So it goes from numbers of every width
(`Varint.delimited_encode`) over texts and lists of texts to the artifact
(`delimited_encode`): its bytes are read back whatever stands behind them, and
no bytes that end early are taken for an artifact. Lengths are numbers of 64
bits, so this is said of artifacts whose lengths are such numbers
(`IsWritable`).
-/

namespace StepGraph

variable {α β : Type} {read : List UInt8 → Option (α × List UInt8)} {form form' : List UInt8}
variable {a : α} {b : β}

/-! ## Forms with an end -/

/-- **A form whose end the reader finds.** -/
structure Delimited (read : List UInt8 → Option (α × List UInt8)) (form : List UInt8) (value : α) :
    Prop where
  /-- The value is read, and what follows is left. -/
  whole : ∀ rest, read (form ++ rest) = some (value, rest)
  /-- Nothing is read where the form breaks off. -/
  broken : ∀ front, front <+: form → front ≠ form → read front = none

namespace Delimited

/-- Nothing has to be read for a value that is known. -/
theorem done (value : α) : Delimited (fun bytes => some (value, bytes)) [] value where
  whole _ := rfl
  broken _ hfront hne := absurd (List.prefix_nil.mp hfront) hne

/-- **Readers in a row** find the ends of forms in a row. -/
theorem bind {k : α → List UInt8 → Option (β × List UInt8)} (h : Delimited read form a)
    (h' : Delimited (k a) form' b) :
    Delimited (fun bytes => (read bytes).bind fun r => k r.1 r.2) (form ++ form') b where
  whole rest := by
    rw [List.append_assoc, h.whole]
    exact h'.whole rest
  broken front hfront hne := by
    by_cases hbehind : form <+: front
    · -- the first form is whole, so the second one breaks off
      obtain ⟨front', rfl⟩ := hbehind
      rw [h.whole]
      refine h'.broken front' ((List.prefix_append_right_inj form).mp hfront) fun heq => hne ?_
      rw [heq]
    · have hinside : front <+: form :=
        (List.prefix_or_prefix_of_prefix hfront (List.prefix_append form form')).resolve_right
          hbehind
      rw [h.broken front hinside fun heq => hbehind (heq ▸ List.prefix_refl form)]
      rfl

/-- What is read may be read on, where this gives something. -/
theorem filterMap {f : α → Option β} (h : Delimited read form a) (hf : f a = some b) :
    Delimited (fun bytes => (read bytes).bind fun r => (f r.1).bind fun b => some (b, r.2)) form
      b := by
  have hdone : Delimited (fun bytes => (f a).bind fun b => some (b, bytes)) [] b := by
    rw [hf]
    exact done b
  rw [← List.append_nil form]
  exact h.bind (k := fun a bytes => (f a).bind fun b => some (b, bytes)) hdone

/-- What is read may be put into something else. -/
theorem map (f : α → β) (h : Delimited read form a) :
    Delimited (fun bytes => (read bytes).bind fun r => some (f r.1, r.2)) form (f a) :=
  h.filterMap (f := fun a => some (f a)) rfl

end Delimited

/-! ## Numbers -/

namespace Varint

variable {n width widest : Nat} {marker : UInt8}

@[simp] theorem length_littleEndian (width n : Nat) : (littleEndian width n).length = width := by
  induction width generalizing n with
  | zero => rfl
  | succ width ih => rw [littleEndian, List.length_cons, ih]

/-- **A number is what its bytes spell**, where they are enough for it. -/
theorem ofLittleEndian_littleEndian (h : n < Nat.pow 256 width) :
    ofLittleEndian (littleEndian width n) = n := by
  induction width generalizing n with
  | zero =>
    rw [Nat.pow_eq, Nat.pow_zero] at h
    rw [littleEndian, ofLittleEndian]
    omega
  | succ width ih =>
    have hrest : n / 256 < Nat.pow 256 width := by
      rw [Nat.pow_eq, Nat.pow_succ] at h
      exact Nat.div_lt_of_lt_mul (Nat.mul_comm _ 256 ▸ h)
    have hbyte : n.toUInt8.toNat = n % 256 := UInt8.toNat_ofNat'
    rw [littleEndian, ofLittleEndian, ih hrest, hbyte]
    omega

/-- So many bytes as there are in a list. -/
theorem delimited_split? (form : List UInt8) : Delimited (split? form.length) form form where
  whole rest := by
    rw [split?, if_pos (by rw [List.length_append]; omega), List.take_left, List.drop_left]
  broken front hfront hne := by
    refine if_neg fun hle => hne (hfront.eq_of_length ?_)
    exact Nat.le_antisymm hfront.length_le hle

/-- A number behind its marker. -/
theorem delimited_marked (hmarker : ¬ marker < 251) (hmarked : markedWidth? marker = some width)
    (hwidth : width ≤ widest) (hn : n < Nat.pow 256 width) :
    Delimited (decode? widest) (marker :: littleEndian width n) n := by
  have hdecode : ∀ rest, decode? widest (marker :: rest) =
      (split? width rest).map fun parts => (ofLittleEndian parts.1, parts.2) := fun rest => by
    rw [decode?, if_neg hmarker, hmarked]
    exact if_pos hwidth
  have hsplit : Delimited (split? width) (littleEndian width n) (littleEndian width n) := by
    have h := delimited_split? (littleEndian width n)
    rwa [length_littleEndian] at h
  constructor
  · intro rest
    rw [List.cons_append, hdecode, hsplit.whole, Option.map_some, ofLittleEndian_littleEndian hn]
  · intro front hfront hne
    cases front with
    | nil => rfl
    | cons first front =>
      obtain ⟨rfl, hbytes⟩ := List.cons_prefix_cons.mp hfront
      rw [hdecode, hsplit.broken front hbytes fun heq => hne (heq ▸ rfl), Option.map_none]

/-- A number that is its own byte. -/
theorem delimited_byte (hn : n < 251) : Delimited (decode? widest) [n.toUInt8] n := by
  have hbyte : n.toUInt8.toNat = n := UInt8.toNat_ofNat_of_lt (Nat.lt_trans hn (by decide))
  have hsmall : n.toUInt8 < 251 := by
    rw [UInt8.lt_iff_toNat_lt, hbyte]
    exact hn
  constructor
  · intro rest
    rw [List.singleton_append, decode?, if_pos hsmall, hbyte]
  · intro front hfront hne
    cases front with
    | nil => rfl
    | cons first front =>
      obtain ⟨rfl, hnone⟩ := List.cons_prefix_cons.mp hfront
      exact absurd (congrArg _ (List.prefix_nil.mp hnone)) hne

/-- **A number of 64 bits is read back**, in each of its widths; a reader that
takes four bytes at most takes the numbers of 32 bits. -/
theorem delimited_encode (hn : n < UInt64.size) (hfour : 4 ≤ widest)
    (height : UInt32.size ≤ n → 8 ≤ widest) : Delimited (decode? widest) (encode n) n := by
  rw [encode]
  split
  · rename_i h
    exact delimited_byte h
  split
  · rename_i h
    exact delimited_marked (by decide) rfl (by omega) h
  split
  · rename_i h
    exact delimited_marked (by decide) rfl hfour h
  · rename_i h
    exact delimited_marked (by decide) rfl (height (by omega)) hn

end Varint

/-! ## Texts -/

namespace Artifact

variable {text : String} {texts : List String} {artifact : Artifact}

/-- **A text is read back**, where its length is a number of 64 bits. -/
theorem delimited_encodeText (h : text.utf8ByteSize < UInt64.size) :
    Delimited decodeText? (encodeText text) text := by
  have hlength : text.toByteArray.data.toList.length = text.utf8ByteSize := rfl
  have hsplit := Varint.delimited_split? text.toByteArray.data.toList
  rw [hlength] at hsplit
  have htext : String.fromUTF8? ⟨text.toByteArray.data.toList.toArray⟩ = some text :=
    dif_pos text.isValidUTF8
  exact (Varint.delimited_encode h (by decide) fun _ => Nat.le_refl _).bind
    (k := fun length bytes => (Varint.split? length bytes).bind fun r =>
      (String.fromUTF8? ⟨r.1.toArray⟩).bind fun text => some (text, r.2))
    (hsplit.filterMap (f := fun bytes => String.fromUTF8? ⟨bytes.toArray⟩) htext)

/-- **A list of texts is read back** by a reader that knows how many there
are. -/
theorem delimited_flatMap (h : ∀ text ∈ texts, text.utf8ByteSize < UInt64.size) :
    Delimited (decodeTexts? texts.length) (texts.flatMap encodeText) texts := by
  induction texts with
  | nil => exact .done []
  | cons text texts ih =>
    obtain ⟨htext, htexts⟩ := List.forall_mem_cons.mp h
    exact (delimited_encodeText htext).bind
      (k := fun text bytes => (decodeTexts? texts.length bytes).bind fun r =>
        some (text :: r.1, r.2))
      ((ih htexts).map (text :: ·))

/-! ## Artifacts -/

/-- **An artifact whose lengths have 64 bits**, as all lengths in the memory
of a machine have. -/
structure IsWritable (artifact : Artifact) : Prop where
  script : artifact.script.utf8ByteSize < UInt64.size
  count : artifact.diagnostics.length < UInt64.size
  diagnostics : ∀ text ∈ artifact.diagnostics, text.utf8ByteSize < UInt64.size

/-- The list of diagnostics is read behind the rest of an artifact. -/
theorem delimited_diagnostics (version : UInt32) (script : String)
    (hcount : texts.length < UInt64.size) (h : ∀ text ∈ texts, text.utf8ByteSize < UInt64.size) :
    Delimited
      (fun bytes => (Varint.decode? 8 bytes).bind fun s => (decodeTexts? s.1 s.2).bind fun t =>
        some ((⟨version, script, t.1⟩ : Artifact), t.2))
      (Varint.encode texts.length ++ texts.flatMap encodeText) ⟨version, script, texts⟩ :=
  (Varint.delimited_encode hcount (by decide) fun _ => Nat.le_refl 8).bind
    (k := fun count bytes => (decodeTexts? count bytes).bind fun t =>
      some ((⟨version, script, t.1⟩ : Artifact), t.2))
    ((delimited_flatMap h).map (Artifact.mk version script))

/-- The script is read behind the version. -/
theorem delimited_script (version : UInt32) (h : artifact.IsWritable) :
    Delimited
      (fun bytes => (decodeText? bytes).bind fun r => (Varint.decode? 8 r.2).bind fun s =>
        (decodeTexts? s.1 s.2).bind fun t => some ((⟨version, r.1, t.1⟩ : Artifact), t.2))
      (encodeText artifact.script ++ (Varint.encode artifact.diagnostics.length ++
        artifact.diagnostics.flatMap encodeText))
      ⟨version, artifact.script, artifact.diagnostics⟩ :=
  (delimited_encodeText h.script).bind
    (k := fun script bytes => (Varint.decode? 8 bytes).bind fun s =>
      (decodeTexts? s.1 s.2).bind fun t => some ((⟨version, script, t.1⟩ : Artifact), t.2))
    (delimited_diagnostics version artifact.script h.count h.diagnostics)

/-- **An artifact is read back.** -/
theorem delimited_encode (h : artifact.IsWritable) :
    Delimited decodeAny? artifact.encode artifact := by
  have hlt : artifact.version.toNat < UInt32.size := artifact.version.toNat_lt
  have hversion : Delimited (Varint.decode? 4) (Varint.encode artifact.version.toNat)
      artifact.version.toNat :=
    Varint.delimited_encode (Nat.lt_trans hlt (by decide)) (Nat.le_refl 4) fun hge =>
      absurd hlt (Nat.not_lt.mpr hge)
  have hback : artifact.version.toNat.toUInt32 = artifact.version := UInt32.ofNat_toNat
  have hrest := delimited_script artifact.version.toNat.toUInt32 h
  rw [hback] at hrest
  rw [encode, List.append_assoc, List.append_assoc]
  exact hversion.bind (k := fun version bytes => (decodeText? bytes).bind fun r =>
      (Varint.decode? 8 r.2).bind fun s => (decodeTexts? s.1 s.2).bind fun t =>
        some ((⟨version.toUInt32, r.1, t.1⟩ : Artifact), t.2)) (by rw [hback]; exact hrest)

/-- **What is written of an artifact is the artifact again**, whatever stands
behind it, or is refused for its version; and what breaks off is refused as no
artifact at all. -/
theorem decode_encode (h : artifact.IsWritable) :
    (∀ rest, decode (artifact.encode ++ rest) =
      if artifact.version.toNat = Script.runtimeVersion then .ok artifact
      else .error (.versionMismatch Script.runtimeVersion artifact.version.toNat)) ∧
    ∀ front, front <+: artifact.encode → front ≠ artifact.encode →
      decode front = .error .malformed := by
  have hread := delimited_encode h
  constructor
  · intro rest
    rw [decode, hread.whole]
  · intro front hfront hne
    rw [decode, hread.broken front hfront hne]

/-- A script of 251 characters, the first length of three bytes, and two
diagnostics, with a byte behind them; and the bytes that break off inside the
length. -/
theorem decode_encode_withLongScript :
    let artifact : Artifact := ⟨1, String.ofList (List.replicate 251 'x'), ["é", ""]⟩
    artifact.IsWritable ∧ decode (artifact.encode ++ [7]) = .ok artifact ∧
      [1, 251, 251] <+: artifact.encode ∧ decode [1, 251, 251] = .error .malformed := by
  intro artifact
  have hwritable : artifact.IsWritable := ⟨by decide +kernel, by decide, by decide⟩
  have hfront : [1, 251, 251] <+: artifact.encode := by decide +kernel
  refine ⟨hwritable, (decode_encode hwritable).1 [7], hfront, ?_⟩
  exact (decode_encode hwritable).2 _ hfront (by decide +kernel)

end Artifact

end StepGraph
