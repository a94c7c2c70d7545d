import LeaseQueue.Json.Printer
import LeaseQueue.Json.Reading
import LeaseQueue.Proofs.Json.Ordered
/-!
# Reading what was written

The text of a value whose numbers are whole reads as that value, with whatever
follows it left over. So to read a written text is to read the value itself.
-/

namespace LeaseQueue
namespace Document

/-!
## Strings
-/

def Draft.ofChars (cs : List Char) : Draft := ⟨cs, none, false⟩

theorem hexValue_digitChar : ∀ n < 16, hexValue (Nat.digitChar n) = some n := by decide

theorem hexValue4_control {n : Nat} (hn : n < 32) :
    hexValue4 '0' '0' (Nat.digitChar (n / 16)) (Nat.digitChar (n % 16)) = some n := by
  have hhigh := hexValue_digitChar (n / 16) (by omega)
  have hlow := hexValue_digitChar (n % 16) (by omega)
  have hzero : hexValue '0' = some 0 := rfl
  have hsum : ((0 * 16 + 0) * 16 + n / 16) * 16 + n % 16 = n := by omega
  simp [hexValue4, hzero, hhigh, hlow]
  omega

theorem Draft.unit_control (cs : List Char) {c : Char} (hc : c.toNat < 32) :
    (ofChars cs).unit c.toNat = ofChars (c :: cs) := by
  have hhigh : ¬ 0xD800 ≤ c.toNat := by omega
  have hlow : ¬ 0xDC00 ≤ c.toNat := by omega
  simp [unit, ofChars, hhigh, hlow]

theorem readChars_plain (d : Draft) {c : Char} (rest : List Char) (hquote : c ≠ '"')
    (hbackslash : c ≠ '\\') (hprints : ¬ c.toNat < 32) :
    readChars d (c :: rest) = readChars (d.char c) rest := by
  rw [readChars.eq_7 d c rest hquote (fun h => absurd h hbackslash)
    (fun _ _ _ _ _ h => absurd h hbackslash) (fun _ h => absurd h hbackslash)
    (fun _ _ h => absurd h hbackslash), if_neg hprints]

theorem readChars_escapeChar (cs : List Char) (c : Char) (rest : List Char) :
    readChars (.ofChars cs) (Json.escapeChar c ++ rest) =
      readChars (.ofChars (c :: cs)) rest := by
  have hcode : ∀ n, c.toNat = n → c = Char.ofNat n := fun n h => by rw [← h, Char.ofNat_toNat]
  unfold Json.escapeChar
  by_cases hquote : c = '"'
  · subst hquote
    rfl
  by_cases hbackslash : c = '\\'
  · subst hbackslash
    rfl
  rw [if_neg hquote, if_neg hbackslash]
  by_cases hbackspace : c.toNat = 8
  · rw [if_pos hbackspace, hcode 8 hbackspace]
    rfl
  by_cases htab : c = '\t'
  · subst htab
    rfl
  by_cases hnewline : c = '\n'
  · subst hnewline
    rfl
  rw [if_neg hbackspace, if_neg htab, if_neg hnewline]
  by_cases hfeed : c.toNat = 12
  · rw [if_pos hfeed, hcode 12 hfeed]
    rfl
  by_cases hreturn : c = '\r'
  · subst hreturn
    rfl
  rw [if_neg hfeed, if_neg hreturn]
  by_cases hcontrol : c.toNat < 0x20
  · rw [if_pos hcontrol]
    show readChars _ ('\\' :: 'u' :: '0' :: '0' :: Nat.digitChar (c.toNat / 16) ::
      Nat.digitChar (c.toNat % 16) :: rest) = _
    rw [readChars.eq_4, hexValue4_control hcontrol, ← Draft.unit_control cs hcontrol]
  · rw [if_neg hcontrol]
    exact readChars_plain _ rest hquote hbackslash hcontrol

theorem readChars_written (done cs rest : List Char) :
    readChars (.ofChars done) (cs.flatMap Json.escapeChar ++ '"' :: rest) =
      .ok (.ok (String.ofList (done.reverse ++ cs)), rest) := by
  -- The draft holds what was read so far, the last character first.
  induction cs generalizing done with
  | nil => simp [Draft.ofChars, readChars, Draft.close]
  | cons c cs ih =>
      rw [List.flatMap_cons, List.append_assoc, readChars_escapeChar, ih]
      simp

theorem readChars_writeString (s : String) (rest : List Char) :
    readChars .start (s.toList.flatMap Json.escapeChar ++ '"' :: rest) = .ok (.ok s, rest) := by
  have h := readChars_written [] s.toList rest
  rwa [List.reverse_nil, List.nil_append, String.ofList_toList] at h

/-!
## Numbers
-/

def EndsNumber (rest : List Char) : Prop :=
  ∀ c ∈ rest.head?, c.isDigit = false ∧ c ≠ '.' ∧ c ≠ 'e' ∧ c ≠ 'E'

theorem takeWhile_digits {ds rest : List Char} (hds : ∀ c ∈ ds, c.isDigit = true)
    (hrest : EndsNumber rest) :
    (ds ++ rest).takeWhile Char.isDigit = ds ∧ (ds ++ rest).dropWhile Char.isDigit = rest := by
  have hstop : rest.takeWhile Char.isDigit = [] ∧ rest.dropWhile Char.isDigit = rest := by
    cases rest with
    | nil => exact ⟨rfl, rfl⟩
    | cons c cs =>
        have hc := (hrest c rfl).1
        simp [hc]
  rw [List.takeWhile_append_of_pos hds, List.dropWhile_append_of_pos hds, hstop.1, hstop.2]
  exact ⟨List.append_nil ds, rfl⟩

theorem head_toDigits {n : Nat} {ds : List Char} (h : Nat.toDigits 10 n = '0' :: ds) :
    n = 0 ∧ ds = [] := by
  induction n using Nat.strongRecOn generalizing ds with
  | ind n ih =>
      rw [Nat.toDigits_eq_if (by decide)] at h
      split at h
      · injection h with hdigit hds
        exact ⟨Nat.digitChar_eq_zero.mp hdigit, hds.symm⟩
      · rename_i hlarge
        cases hfront : Nat.toDigits 10 (n / 10) with
        | nil => exact absurd hfront Nat.toDigits_ne_nil
        | cons c front =>
            rw [hfront] at h
            injection h with hc _
            rw [hc] at hfront
            have hsmall := (ih (n / 10) (by omega) hfront).1
            omega

theorem readWhole_toDigits (n : Nat) {rest : List Char} (hrest : EndsNumber rest) :
    readWhole (Nat.toDigits 10 n ++ rest) = .ok (Nat.toDigits 10 n, rest) := by
  have hdigits : ∀ c ∈ Nat.toDigits 10 n, c.isDigit = true :=
    fun c hc => Nat.isDigit_of_mem_toDigits (by decide) (by decide) hc
  cases hds : Nat.toDigits 10 n with
  | nil => exact absurd hds Nat.toDigits_ne_nil
  | cons c ds =>
      rw [hds] at hdigits
      by_cases hzero : c = '0'
      · subst hzero
        rw [(head_toDigits hds).2]
        cases rest with
        | nil => rfl
        | cons c cs =>
            have hc := (hrest c rfl).1
            simp [readWhole, hc]
      · have hspan := takeWhile_digits hdigits hrest
        unfold readWhole
        split
        · rename_i rest' heq
          injection heq with hhead _
          exact absurd hhead hzero
        · rw [hspan.1, hspan.2]
          rfl

theorem digitsValue_toDigits (n : Nat) : digitsValue (Nat.toDigits 10 n) = n := by
  have h := Nat.ofDigitChars_toDigits (b := 10) (n := n) (by decide) (by decide)
  rwa [Nat.ofDigitChars_eq_foldl] at h

theorem readFraction_of_endsNumber {rest : List Char} (hrest : EndsNumber rest) :
    readFraction rest = .ok (none, rest) := by
  cases rest with
  | nil => rfl
  | cons c cs =>
      have hc := (hrest c rfl).2.1
      unfold readFraction
      split
      · rename_i heq
        injection heq with hhead _
        exact absurd hhead hc
      · rfl

theorem readExponent_of_endsNumber {rest : List Char} (hrest : EndsNumber rest) :
    readExponent rest = .ok (none, rest) := by
  cases rest with
  | nil => rfl
  | cons c cs =>
      rcases hrest c rfl with ⟨-, -, hsmall, hcapital⟩
      simp [readExponent, hsmall, hcapital]

theorem readUnsigned_toDigits (negative : Bool) (n : Nat) {rest : List Char}
    (hrest : EndsNumber rest) :
    readUnsigned negative (Nat.toDigits 10 n ++ rest) =
      .ok (.number (denote negative (Nat.toDigits 10 n) none none), rest) := by
  unfold readUnsigned
  rw [readWhole_toDigits n hrest]
  simp only [Except.bind, bind, readFraction_of_endsNumber hrest, readExponent_of_endsNumber hrest]
  rfl

theorem denote_ofNat {n : Nat} (hn : (n : Int) ≤ greatestWhole) :
    denote false (Nat.toDigits 10 n) none none = .ok (.whole n) := by
  have hrange : ¬ greatestWhole < (n : Int) := by omega
  simp [denote, digitsValue_toDigits, hrange]

theorem denote_negSucc {n : Nat} (hn : leastWhole ≤ Int.negSucc n) :
    denote true (Nat.toDigits 10 (n + 1)) none none = .ok (.whole (Int.negSucc n)) := by
  have hwhole : -((n + 1 : Nat) : Int) = Int.negSucc n := rfl
  have hrange : ¬ Int.negSucc n < leastWhole := by omega
  simp only [denote, Option.getD_none, List.append_nil, digitsValue_toDigits, hwhole, hrange]
  simp

/-!
## Single values
-/

theorem skipSpace_cons {c : Char} (hc : isSpace c = false) (cs : List Char) :
    skipSpace (c :: cs) = c :: cs := by
  unfold skipSpace
  rw [List.dropWhile_cons_of_neg (by simp [hc])]

theorem ne_of_isDigit {c d : Char} (hc : c.isDigit = true) (hd : d.isDigit = false) : c ≠ d := by
  intro heq
  rw [heq, hd] at hc
  cases hc

theorem isSpace_of_isDigit {c : Char} (hc : c.isDigit = true) : isSpace c = false := by
  have hne : ∀ d : Char, d.isDigit = false → c ≠ d := fun d => ne_of_isDigit hc
  simp [isSpace, hne]

theorem exists_toDigits_cons (n : Nat) :
    ∃ c ds, Nat.toDigits 10 n = c :: ds ∧ c.isDigit = true := by
  cases hds : Nat.toDigits 10 n with
  | nil => exact absurd hds Nat.toDigits_ne_nil
  | cons c ds =>
      have hmem : c ∈ Nat.toDigits 10 n := hds ▸ List.mem_cons_self
      exact ⟨c, ds, rfl, Nat.isDigit_of_mem_toDigits (by decide) (by decide) hmem⟩

theorem readValue_digit (fuel : Nat) {c : Char} (hc : c.isDigit = true) (cs : List Char) :
    readValue (fuel + 1) (c :: cs) = readValue.numeral (readUnsigned false (c :: cs)) := by
  have hne : ∀ d : Char, d.isDigit = false → c ≠ d := fun d => ne_of_isDigit hc
  rw [readValue, skipSpace_cons (isSpace_of_isDigit hc)]
  simp [hne, hc]

theorem readValue_writeInt (fuel : Nat) {n : Int} (hleast : leastWhole ≤ n)
    (hgreatest : n ≤ greatestWhole) {rest : List Char} (hrest : EndsNumber rest) :
    readValue (fuel + 1) (Json.writeInt n ++ rest) = (.number (.ok (.whole n)), some rest) := by
  cases n with
  | ofNat n =>
      have hread := readUnsigned_toDigits false n hrest
      rw [denote_ofNat hgreatest] at hread
      rcases exists_toDigits_cons n with ⟨c, ds, hds, hc⟩
      show readValue (fuel + 1) (Nat.toDigits 10 n ++ rest) = _
      rw [hds, List.cons_append] at hread ⊢
      rw [readValue_digit fuel hc, hread]
      rfl
  | negSucc n =>
      have hread := readUnsigned_toDigits true (n + 1) hrest
      rw [denote_negSucc hleast] at hread
      show readValue (fuel + 1) ('-' :: (Nat.toDigits 10 (n + 1) ++ rest)) = _
      rw [readValue, skipSpace_cons rfl]
      simp only [hread]
      rfl

theorem readValue_writeString (fuel : Nat) (s : String) (rest : List Char) :
    readValue (fuel + 1) (Json.writeString s ++ rest) = (.string (.ok s), some rest) := by
  have hread := readChars_writeString s rest
  show readValue (fuel + 1) ('"' :: (s.toList.flatMap Json.escapeChar ++ ['"'] ++ rest)) = _
  rw [List.append_assoc, List.singleton_append, readValue, skipSpace_cons rfl]
  simp only [hread]

/-!
## Arrays and objects
-/

theorem exists_write_cons {v : Json} (hv : v.isWhole = true) :
    ∃ c cs, Json.write v = c :: cs ∧ isSpace c = false ∧ c ≠ ']' := by
  cases v with
  | null => exact ⟨'n', _, rfl, rfl, by decide⟩
  | bool b => cases b <;> exact ⟨_, _, rfl, rfl, by decide⟩
  | string s => exact ⟨'"', _, rfl, rfl, by decide⟩
  | array items => exact ⟨'[', _, rfl, rfl, by decide⟩
  | object members => exact ⟨'\x7b', _, rfl, rfl, by decide⟩
  | number n =>
      cases n with
      | real x => cases hv
      | whole n =>
          cases n with
          | negSucc n => exact ⟨'-', _, rfl, rfl, by decide⟩
          | ofNat n =>
              rcases exists_toDigits_cons n with ⟨c, ds, hds, hc⟩
              exact ⟨c, ds, hds, isSpace_of_isDigit hc, ne_of_isDigit hc rfl⟩

theorem exists_writeItems_cons {v : Json} (hv : v.isWhole = true) (items : List Json)
    (rest : List Char) :
    ∃ c cs, Json.writeItems (v :: items) ++ rest = c :: cs ∧ isSpace c = false ∧ c ≠ ']' := by
  rcases exists_write_cons hv with ⟨c, cs, hcons, hc⟩
  refine ⟨c, cs ++ Json.writeMoreItems items ++ rest, ?_, hc⟩
  show Json.write v ++ Json.writeMoreItems items ++ rest = _
  rw [hcons]
  rfl

theorem writeMoreItems_cons (v : Json) (items : List Json) :
    Json.writeMoreItems (v :: items) = ',' :: Json.writeItems (v :: items) := rfl

theorem exists_writeMembers_cons (k : String) (v : Json) (members : List (String × Json))
    (rest : List Char) :
    ∃ cs, Json.writeMembers ((k, v) :: members) ++ rest = '"' :: cs := ⟨_, rfl⟩

theorem writeMoreMembers_cons (k : String) (v : Json) (members : List (String × Json)) :
    Json.writeMoreMembers ((k, v) :: members) = ',' :: Json.writeMembers ((k, v) :: members) := rfl

theorem endsNumber_cons {c : Char} (hc : c = ',' ∨ c = ']' ∨ c = '\x7d') (rest : List Char) :
    EndsNumber (c :: rest) := by
  intro d hd
  cases hd
  rcases hc with rfl | rfl | rfl <;> decide

theorem readItems_of_readValue {fuel : Nat} {cs rest : List Char} {d : Document}
    (hvalue : readValue fuel cs = (d, some rest)) :
    (∀ after, rest = ']' :: after → readItems (fuel + 1) cs = ([d], .closed, some after)) ∧
    (∀ c after, rest = ',' :: c :: after → isSpace c = false → c ≠ ']' →
      readItems (fuel + 1) cs =
        (d :: (readItems fuel (c :: after)).1, (readItems fuel (c :: after)).2)) := by
  constructor
  · intro after hrest
    rw [readItems, hvalue, hrest]
    rfl
  · intro c after hrest hspace hne
    rw [readItems, hvalue, hrest]
    simp [skipSpace_cons (c := ',') rfl, skipSpace_cons hspace, hne]

theorem readMembers_of_readValue {fuel : Nat} {k : String} {cs rest : List Char} {d : Document}
    (hvalue : readValue fuel cs = (d, some rest)) :
    (∀ after, rest = '\x7d' :: after →
      readMembers (fuel + 1) (Json.writeString k ++ ':' :: cs) =
        ([(.text k, d)], .closed, some after)) ∧
    (∀ after, rest = ',' :: after →
      readMembers (fuel + 1) (Json.writeString k ++ ':' :: cs) =
        ((.text k, d) :: (readMembers fuel after).1, (readMembers fuel after).2)) := by
  have hkey := readChars_writeString k (':' :: cs)
  have hshape : Json.writeString k ++ ':' :: cs =
      '"' :: (k.toList.flatMap Json.escapeChar ++ '"' :: ':' :: cs) := by
    simp [Json.writeString]
  constructor
  · intro after hrest
    rw [hshape, readMembers, skipSpace_cons rfl]
    simp only [hkey, skipSpace_cons (c := ':') rfl, hvalue, hrest]
    rfl
  · intro after hrest
    rw [hshape, readMembers, skipSpace_cons rfl]
    simp only [hkey, skipSpace_cons (c := ':') rfl, hvalue, hrest, skipSpace_cons (c := ',') rfl]

mutual
/-- The text of a value reads as that value. Two steps of fuel for each character are enough. -/
theorem readValue_write (v : Json) (hv : v.isWhole = true) (fuel : Nat)
    (hfuel : 2 * (Json.write v).length ≤ fuel) (rest : List Char) (hrest : EndsNumber rest) :
    readValue fuel (Json.write v ++ rest) = (ofJson v, some rest) := by
  -- A value takes one step itself, and each of its items or members takes one more.
  obtain ⟨fuel, rfl⟩ : ∃ f, fuel = f + 1 := by
    rcases exists_write_cons hv with ⟨c, cs, hcons, -⟩
    rw [hcons, List.length_cons] at hfuel
    exact ⟨fuel - 1, by omega⟩
  cases v with
  | null => rfl
  | bool b => cases b <;> rfl
  | string s => exact readValue_writeString fuel s rest
  | number n =>
      cases n with
      | real x => cases hv
      | whole n =>
          have hbounds := Bool.and_eq_true_iff.mp hv
          exact readValue_writeInt fuel (of_decide_eq_true hbounds.1)
            (of_decide_eq_true hbounds.2) hrest
  | array items =>
      cases items with
      | nil => rfl
      | cons w more =>
          have hlength : (Json.write (.array (w :: more))).length =
              (Json.writeItems (w :: more)).length + 2 := by simp [Json.write]
          obtain ⟨fuel, rfl⟩ : ∃ f, fuel = f + 1 := ⟨fuel - 1, by omega⟩
          have hread := readItems_write w more hv fuel (by omega) rest
          rcases exists_writeItems_cons (Bool.and_eq_true_iff.mp hv).1 more (']' :: rest) with
            ⟨d, ds, hds, hspace, hne⟩
          have hshape : Json.write (.array (w :: more)) ++ rest = '[' :: d :: ds := by
            rw [← hds]
            simp [Json.write]
          rw [hds] at hread
          rw [hshape, readValue, skipSpace_cons rfl]
          simp [skipSpace_cons hspace, hne, hread, ofJson]
  | object members =>
      cases members with
      | nil => rfl
      | cons p more =>
          rcases p with ⟨k, w⟩
          have hlength : (Json.write (.object ((k, w) :: more))).length =
              (Json.writeMembers ((k, w) :: more)).length + 2 := by simp [Json.write]
          obtain ⟨fuel, rfl⟩ : ∃ f, fuel = f + 1 := ⟨fuel - 1, by omega⟩
          have hread := readMembers_write k w more hv fuel (by omega) rest
          rcases exists_writeMembers_cons k w more ('\x7d' :: rest) with ⟨ds, hds⟩
          have hshape : Json.write (.object ((k, w) :: more)) ++ rest = '\x7b' :: '"' :: ds := by
            rw [← hds]
            simp [Json.write]
          rw [hds] at hread
          rw [hshape, readValue, skipSpace_cons rfl]
          simp [skipSpace_cons (c := '"') rfl, hread, ofJson]
termination_by (fuel, 0)

theorem readItems_write (v : Json) (items : List Json)
    (hitems : Json.isWholeItems (v :: items) = true) (fuel : Nat)
    (hfuel : 2 * (Json.writeItems (v :: items)).length ≤ fuel) (rest : List Char) :
    readItems (fuel + 1) (Json.writeItems (v :: items) ++ ']' :: rest) =
      (ofItems (v :: items), .closed, some rest) := by
  rcases Bool.and_eq_true_iff.mp hitems with ⟨hv, hitems'⟩
  have hlength : (Json.writeItems (v :: items)).length =
      (Json.write v).length + (Json.writeMoreItems items).length := List.length_append
  have hread := fun after hafter => readValue_write v hv fuel (by omega) after hafter
  show readItems (fuel + 1) (Json.write v ++ Json.writeMoreItems items ++ ']' :: rest) = _
  rw [List.append_assoc]
  cases items with
  | nil =>
      exact (readItems_of_readValue (hread _ (endsNumber_cons (by decide) rest))).1 rest rfl
  | cons w more =>
      have hmore : (Json.writeMoreItems (w :: more)).length =
          (Json.writeItems (w :: more)).length + 1 := by
        rw [writeMoreItems_cons, List.length_cons]
      have hpos : 0 < (Json.write v).length := by
        rcases exists_write_cons hv with ⟨c, cs, hcons, -⟩
        rw [hcons, List.length_cons]
        omega
      obtain ⟨fuel, rfl⟩ : ∃ f, fuel = f + 1 := ⟨fuel - 1, by omega⟩
      have hitems'' := readItems_write w more hitems' fuel (by omega) rest
      rcases exists_writeItems_cons (Bool.and_eq_true_iff.mp hitems').1 more (']' :: rest) with
        ⟨c, cs, hcs, hspace, hne⟩
      rw [writeMoreItems_cons, List.cons_append]
      have hvalue := hread _ (endsNumber_cons (.inl rfl)
        (Json.writeItems (w :: more) ++ ']' :: rest))
      rw [hcs] at hvalue hitems'' ⊢
      rw [(readItems_of_readValue hvalue).2 c cs rfl hspace hne, hitems'']
      rfl
termination_by (fuel, 1)

theorem readMembers_write (k : String) (v : Json) (members : List (String × Json))
    (hmembers : Json.isWholeMembers ((k, v) :: members) = true) (fuel : Nat)
    (hfuel : 2 * (Json.writeMembers ((k, v) :: members)).length ≤ fuel) (rest : List Char) :
    readMembers (fuel + 1) (Json.writeMembers ((k, v) :: members) ++ '\x7d' :: rest) =
      (ofMembers ((k, v) :: members), .closed, some rest) := by
  rcases Bool.and_eq_true_iff.mp hmembers with ⟨hv, hmembers'⟩
  have hlength : (Json.writeMembers ((k, v) :: members)).length =
      (Json.writeString k).length + ((Json.write v).length +
        (Json.writeMoreMembers members).length + 1) := by
    simp [Json.writeMembers]
  have hread := fun after hafter => readValue_write v hv fuel (by omega) after hafter
  have hshape : ∀ after, Json.writeMembers ((k, v) :: members) ++ after =
      Json.writeString k ++ ':' :: (Json.write v ++ (Json.writeMoreMembers members ++ after)) := by
    simp [Json.writeMembers]
  rw [hshape]
  cases members with
  | nil =>
      exact (readMembers_of_readValue (hread _ (endsNumber_cons (by decide) rest))).1 rest rfl
  | cons p more =>
      rcases p with ⟨l, w⟩
      have hmore : (Json.writeMoreMembers ((l, w) :: more)).length =
          (Json.writeMembers ((l, w) :: more)).length + 1 := by
        rw [writeMoreMembers_cons, List.length_cons]
      obtain ⟨fuel, rfl⟩ : ∃ f, fuel = f + 1 := ⟨fuel - 1, by omega⟩
      have hmembers'' := readMembers_write l w more hmembers' fuel (by omega) rest
      have hvalue := hread _ (endsNumber_cons (.inl rfl)
        (Json.writeMembers ((l, w) :: more) ++ '\x7d' :: rest))
      rw [writeMoreMembers_cons, List.cons_append, (readMembers_of_readValue hvalue).2 _ rfl,
        hmembers'']
      rfl
termination_by (fuel, 1)
end

/-!
## Whole texts
-/

theorem read_write {v : Json} (hv : v.isWhole = true) :
    read (Json.write v) = (ofJson v, some []) := by
  have hend : EndsNumber [] := by simp [EndsNumber]
  have h := readValue_write v hv (2 * (Json.write v).length + 2) (by omega) [] hend
  rwa [List.append_nil] at h

theorem parse_render {α : Type} (get : Nat → Document → Except Failure α) {v : Json}
    (hv : v.isWhole = true) : parse get v.render = get nestingLimit (ofJson v) := by
  unfold parse Json.render
  rw [String.toList_ofList, read_write hv]
  dsimp only
  cases get nestingLimit (ofJson v) <;> rfl

end Document
end LeaseQueue
