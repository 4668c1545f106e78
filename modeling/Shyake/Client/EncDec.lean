import Shyake.Client.Calls

/-!
# Reading encrypted files (`shyake_dec_file` of `enc_dec.c`)

A file is encrypted under a symmetric key of its own, and the key is wrapped for the
holder of a KEM key, all in one container. The reader takes the lengths in the container
as it finds them.
-/

namespace Shyake.Client

variable (kdf : Kdf) (keyAead : Bytes → Aead)

/-! ## shyake_dec_file -/

/-- What `shyake_dec_file` takes from its surroundings. -/
structure DecCalls where
  /-- Whether `malloc` gives each of the three buffers whose lengths are in the file. -/
  kemCt : Bool
  ct : Bool
  pt : Bool
  /-- Whether `OQS_KEM_new` succeeds. -/
  kem : Bool
  /-- Without a buffer for the plaintext the ciphertext counts as additional data: whether the tag is
  that of an empty text with these data. -/
  aad : Bool
  /-- Whether the output can be opened; standard output is. -/
  out : Bool

/-- What it returns, with the text that it leaves in the context and what it writes. -/
structure Decoded where
  err : ShyakeErr
  error : Option Bytes
  out : Option Bytes

/-- The fields up to the nonce. -/
structure EncHead where
  kemCt : Bytes
  ek : Bytes
  ptLen : Nat
  nonce : Bytes

/-- All fields, and what is behind them. -/
structure EncFields extends EncHead where
  ct : Bytes
  mac : Bytes
  rest : Bytes

/-- `read_u32le` of a file: a short read gives zero, and leaves nothing. -/
def freadU32le (rest : Bytes) : Nat × Bytes :=
  if rest.length < 4 then (0, []) else (readU32le rest, rest.drop 4)

/-- `fread` of so many bytes, or nothing when there are fewer. Without a buffer the first byte is
written through NULL. -/
def fread (buffer : Bool) (n : Nat) (rest : Bytes) : Routine (Option (Bytes × Bytes)) :=
  if buffer = false ∧ 0 < n ∧ rest ≠ [] then .ask .fault Empty.elim
  else .ret (if rest.length < n then none else some (rest.take n, rest.drop n))

/-- The fields up to the nonce, and what follows them. -/
def readHead (calls : DecCalls) (data : Bytes) : Routine (Option (EncHead × Bytes)) := do
  let (kemCtLen, rest) := freadU32le data
  match ← fread calls.kemCt kemCtLen rest with
  | none => .ret none
  | some (kemCt, rest) =>
    let (ekLen, rest) := freadU32le rest
    if ekLen ≠ 32 then .ret none
    else
      match ← fread true 32 rest with
      | none => .ret none
      | some (ek, rest) =>
        let (ptLen, rest) := freadU32le rest
        match ← fread true 12 rest with
        | none => .ret none
        | some (nonce, rest) => .ret (some (⟨kemCt, ek, ptLen, nonce⟩, rest))

/-- The ciphertext and the tag. -/
def readText (calls : DecCalls) (head : EncHead) (rest : Bytes) : Routine (Option EncFields) := do
  match ← fread calls.ct head.ptLen rest with
  | none => .ret none
  | some (ct, rest) =>
    match ← fread true 16 rest with
    | none => .ret none
    | some (mac, rest) => .ret (some ⟨head, ct, mac, rest⟩)

/-- What is decrypted, with no buffer for it where there is none; `none` when the tag is wrong. -/
def decrypted (decrypt : (key nonce ct mac : Bytes) → Option Bytes) (calls : DecCalls)
    (f : EncFields) (ss : Bytes) : Option (Option Bytes) :=
  if calls.pt ∨ f.ct = [] then (decrypt (xor f.ek ss) f.nonce f.ct f.mac).map some
  else if calls.aad then some none
  else none

/-- What follows the decapsulation. -/
def decapsulated (decrypt : (key nonce ct mac : Bytes) → Option Bytes) (calls : DecCalls)
    (outPath : Bytes) (f : EncFields) : Option Bytes → Routine Decoded
  | none => .ret ⟨.ERR_CRYPTO, setError (utf8 "The file is not encrypted to your key."), none⟩
  | some ss =>
    match decrypted decrypt calls f ss with
    | none => .ret ⟨.ERR_CRYPTO, setError (utf8 "The file is damaged or was changed."), none⟩
    | some pt =>
      if calls.out = false then
        .ret ⟨.ERR, setError (utf8 "Cannot write " ++ outPath ++ utf8 "."), none⟩
      else do
        let pt ← deref pt
        .ret ⟨.OK, none, some pt⟩

/-- What follows once the file is read and closed. -/
def openFields (decrypt : (key nonce ct mac : Bytes) → Option Bytes) (calls : DecCalls)
    (ctx : Ctx) (files : Files) (outPath : Bytes) (f : EncFields) : Routine Decoded :=
  match Calls.loadKsk kdf keyAead ctx files with
  | .error error => .ret ⟨.ERR_CRYPTO, error, none⟩
  | .ok ksk =>
    if calls.kem = false then .ret ⟨.ERR_CRYPTO, none, none⟩
    else .ask (.decaps f.kemCt ksk) (decapsulated decrypt calls outPath f)

def badFormat : Decoded := ⟨.ERR, setError (utf8 "The file is not a valid .enc file."), none⟩

/-- `shyake_dec_file`. -/
def shyakeDecFile (decrypt : (key nonce ct mac : Bytes) → Option Bytes) (calls : DecCalls)
    (ctx : Ctx) (files : Files) (inPath outPath : Bytes) : Routine Decoded :=
  match files inPath with
  | none => .ret ⟨.ERR, setError (utf8 "Cannot open " ++ inPath ++ utf8 "."), none⟩
  | some data => do
    match ← readHead calls data with
    | none => .ret badFormat
    | some (head, rest) =>
      match ← readText calls head rest with
      | none => .ret badFormat
      | some f => openFields kdf keyAead decrypt calls ctx files outPath f

/-! ## The layout -/

/-- What is written of the fields up to the nonce. -/
def EncHead.bytes (h : EncHead) : Bytes :=
  writeU32le h.kemCt.length ++ (h.kemCt ++ (writeU32le 32 ++ (h.ek ++ (writeU32le h.ptLen ++
    h.nonce))))

structure EncHead.WellFormed (h : EncHead) : Prop where
  kemCt : h.kemCt.length < 2 ^ 32
  ek : h.ek.length = 32
  ptLen : h.ptLen < 2 ^ 32
  nonce : h.nonce.length = 12

/-- A file that begins with all fields. -/
structure Layout (data : Bytes) (f : EncFields) : Prop where
  head : f.toEncHead.WellFormed
  ct : f.ct.length = f.ptLen
  mac : f.mac.length = 16
  bytes : data = f.toEncHead.bytes ++ (f.ct ++ (f.mac ++ f.rest))

theorem length_writeU32le (v : Nat) : (writeU32le v).length = 4 := rfl

theorem freadU32le_write {v : Nat} (small : v < 2 ^ 32) (rest : Bytes) :
    freadU32le (writeU32le v ++ rest) = (v, rest) := by
  have long : ¬ (writeU32le v ++ rest).length < 4 := by
    rw [List.length_append, length_writeU32le]
    omega
  unfold freadU32le
  rw [if_neg long, readU32le_writeU32le small, List.drop_left' (length_writeU32le v)]

/-- A length is read, or there are fewer than four bytes. -/
theorem freadU32le_cases (data : Bytes) :
    freadU32le data = (0, []) ∨
      ∃ v rest, v < 2 ^ 32 ∧ data = writeU32le v ++ rest ∧ freadU32le data = (v, rest) := by
  rcases data with _ | ⟨a, _ | ⟨b, _ | ⟨c, _ | ⟨d, rest⟩⟩⟩⟩
  · exact .inl rfl
  · exact .inl rfl
  · exact .inl rfl
  · exact .inl rfl
  · have ha := a.toNat_lt
    have hb := b.toNat_lt
    have hc := c.toNat_lt
    have hd := d.toNat_lt
    have small : readU32le (a :: b :: c :: d :: rest) < 2 ^ 32 := by
      change a.toNat + b.toNat * 2 ^ 8 + c.toNat * 2 ^ 16 + d.toNat * 2 ^ 24 < 2 ^ 32
      omega
    have written : a :: b :: c :: d :: rest =
        writeU32le (readU32le (a :: b :: c :: d :: rest)) ++ rest := by
      change _ = writeU32le (a.toNat + b.toNat * 2 ^ 8 + c.toNat * 2 ^ 16 + d.toNat * 2 ^ 24) ++ rest
      unfold writeU32le
      simp only [List.cons_append, List.nil_append, List.cons.injEq, and_true]
      refine ⟨?_, ?_, ?_, ?_⟩ <;> apply UInt8.toNat_inj.mp <;> rw [UInt8.toNat_ofNat'] <;> omega
    refine .inr ⟨_, rest, small, written, ?_⟩
    unfold freadU32le
    rw [if_neg (by simp only [List.length_cons]; omega)]
    rfl

theorem fread_front {buffer : Bool} {front rest : Bytes} {n : Nat} (length : front.length = n)
    (room : buffer = true ∨ front = []) :
    fread buffer n (front ++ rest) = .ret (some (front, rest)) := by
  have no : ¬ (buffer = false ∧ 0 < n ∧ front ++ rest ≠ []) := by
    rintro ⟨null, pos, -⟩
    rcases room with room | rfl
    · rw [null] at room
      cases room
    · rw [List.length_nil] at length
      omega
  have enough : ¬ (front ++ rest).length < n := by
    rw [List.length_append]
    omega
  unfold fread
  rw [if_neg no, if_neg enough, List.take_left' length, List.drop_left' length]

theorem fread_null {buffer : Bool} {n : Nat} {rest : Bytes}
    (null : buffer = false ∧ 0 < n ∧ rest ≠ []) : fread buffer n rest = .ask .fault Empty.elim :=
  if_pos null

/-- What is read into a buffer, if there is one and the bytes are there. -/
theorem fread_cases (buffer : Bool) (n : Nat) (rest : Bytes) :
    (buffer = false ∧ 0 < n ∧ rest ≠ []) ∧ fread buffer n rest = .ask .fault Empty.elim ∨
      ¬ (buffer = false ∧ 0 < n ∧ rest ≠ []) ∧
        (rest.length < n ∧ fread buffer n rest = .ret none ∨
          ∃ front rest', front.length = n ∧ rest = front ++ rest' ∧
            fread buffer n rest = .ret (some (front, rest'))) := by
  unfold fread
  by_cases null : buffer = false ∧ 0 < n ∧ rest ≠ []
  · exact .inl ⟨null, if_pos null⟩
  · refine .inr ⟨null, ?_⟩
    rw [if_neg null]
    by_cases short : rest.length < n
    · exact .inl ⟨short, by rw [if_pos short]⟩
    · refine .inr ⟨rest.take n, rest.drop n, ?_, (List.take_append_drop n rest).symm, ?_⟩
      · rw [List.length_take]
        omega
      · rw [if_neg short]

/-- The buffer for the KEM ciphertext is written to though there is none. -/
def HeadFault (calls : DecCalls) (data : Bytes) : Prop :=
  calls.kemCt = false ∧ 0 < (freadU32le data).1 ∧ (freadU32le data).2 ≠ []

/-- A head that is there is read. -/
theorem readHead_bytes {calls : DecCalls} {h : EncHead} (wf : h.WellFormed) {rest : Bytes}
    (safe : ¬ HeadFault calls (h.bytes ++ rest)) :
    readHead calls (h.bytes ++ rest) = .ret (some (h, rest)) := by
  have front : h.bytes ++ rest = writeU32le h.kemCt.length ++ (h.kemCt ++ (writeU32le 32 ++
      (h.ek ++ (writeU32le h.ptLen ++ (h.nonce ++ rest))))) := by
    unfold EncHead.bytes
    simp only [List.append_assoc]
  rw [front] at safe ⊢
  have room : calls.kemCt = true ∨ h.kemCt = [] := by
    by_contra! no
    refine safe ⟨by simpa using no.1, ?_⟩
    rw [freadU32le_write wf.kemCt]
    exact ⟨List.length_pos_of_ne_nil no.2, List.append_ne_nil_of_left_ne_nil no.2 _⟩
  unfold readHead
  rw [freadU32le_write wf.kemCt]
  dsimp only
  rw [fread_front rfl room]
  simp only [Lib.Prog.ret_bind, freadU32le_write (v := 32) (by decide), ne_eq, not_true_eq_false,
    if_false, fread_front wf.ek (.inl rfl), freadU32le_write wf.ptLen, fread_front wf.nonce (.inl rfl)]

/-- Where no head is read, there is none. -/
theorem readHead_cases (calls : DecCalls) (data : Bytes) (safe : ¬ HeadFault calls data) :
    readHead calls data = .ret none ∨
      ∃ h rest, h.WellFormed ∧ data = h.bytes ++ rest ∧
        readHead calls data = .ret (some (h, rest)) := by
  unfold readHead
  rcases freadU32le_cases data with read | ⟨k, rest, hk, rfl, read⟩
  · -- a short file: no bytes are read, and no `ek_len`
    have nothing : fread calls.kemCt 0 ([] ++ []) = .ret (some ([], [])) :=
      fread_front rfl (.inr rfl)
    have none : freadU32le [] = (0, []) := rfl
    left
    rw [read]
    dsimp only
    rw [show ([] : Bytes) = [] ++ [] from rfl, nothing]
    rfl
  rw [read]
  dsimp only
  rcases fread_cases calls.kemCt k rest with ⟨null, -⟩ | ⟨-, ⟨-, got⟩ | ⟨kemCt, rest, hkem, rfl, got⟩⟩
  · unfold HeadFault at safe
    rw [read] at safe
    exact absurd null safe
  · left
    rw [got]
    rfl
  rw [got, Lib.Prog.ret_bind]
  dsimp only
  rcases freadU32le_cases rest with read | ⟨ekLen, rest, hek, rfl, read⟩
  · left
    rw [read]
    rfl
  rw [read]
  dsimp only
  by_cases other : ekLen ≠ 32
  · left
    rw [if_pos other]
  rw [if_neg other]
  rcases fread_cases true 32 rest with ⟨⟨null, -⟩, -⟩ | ⟨-, ⟨-, got⟩ | ⟨ek, rest, len, rfl, got⟩⟩
  · cases null
  · left
    rw [got]
    rfl
  rw [got, Lib.Prog.ret_bind]
  dsimp only
  rcases freadU32le_cases rest with read | ⟨ptLen, rest, hpt, rfl, read⟩
  · left
    rw [read]
    rfl
  rw [read]
  dsimp only
  rcases fread_cases true 12 rest with ⟨⟨null, -⟩, -⟩ | ⟨-, ⟨-, got⟩ | ⟨nonce, rest, len', rfl, got⟩⟩
  · cases null
  · left
    rw [got]
    rfl
  rw [got, Lib.Prog.ret_bind]
  dsimp only
  obtain rfl := not_not.mp other
  refine .inr ⟨⟨kemCt, ek, ptLen, nonce⟩, rest, ⟨?_, len, hpt, len'⟩, ?_, rfl⟩
  · rw [hkem]
    exact hk
  · unfold EncHead.bytes
    rw [hkem]
    simp only [List.append_assoc]

/-- The buffer for the ciphertext is written to though there is none. -/
def TextFault (calls : DecCalls) (data : Bytes) : Prop :=
  ∃ (h : EncHead) (rest : Bytes), h.WellFormed ∧ data = h.bytes ++ rest ∧ calls.ct = false ∧
    0 < h.ptLen ∧ rest ≠ []

/-- The fields up to the nonce are read, and what follows them is: all of it or not enough. -/
theorem readText_cases (calls : DecCalls) (h : EncHead) (rest : Bytes)
    (safe : ¬ (calls.ct = false ∧ 0 < h.ptLen ∧ rest ≠ [])) :
    readText calls h rest = .ret none ∧ rest.length < h.ptLen + 16 ∨
      ∃ ct mac rest', ct.length = h.ptLen ∧ mac.length = 16 ∧ rest = ct ++ (mac ++ rest') ∧
        readText calls h rest = .ret (some ⟨h, ct, mac, rest'⟩) := by
  unfold readText
  rcases fread_cases calls.ct h.ptLen rest with ⟨null, -⟩ | ⟨-, ⟨short, got⟩ | ⟨ct, rest, len, rfl, got⟩⟩
  · exact absurd null safe
  · refine .inl ⟨?_, by omega⟩
    rw [got]
    rfl
  rw [got, Lib.Prog.ret_bind]
  dsimp only
  rcases fread_cases true 16 rest with ⟨⟨null, -⟩, -⟩ | ⟨-, ⟨short, got⟩ | ⟨mac, rest, len', rfl, got⟩⟩
  · cases null
  · refine .inl ⟨?_, ?_⟩
    · rw [got]
      rfl
    · rw [List.length_append]
      omega
  · refine .inr ⟨ct, mac, rest, len, len', rfl, ?_⟩
    rw [got]
    rfl

/-- There is one way to read a file. -/
theorem head_unique {h h' : EncHead} (wf : h.WellFormed) (wf' : h'.WellFormed) {rest rest' : Bytes}
    (same : h.bytes ++ rest = h'.bytes ++ rest') : h = h' ∧ rest = rest' := by
  have all : ∀ data, ¬ HeadFault ⟨true, true, true, true, true, true⟩ data := fun _ no => nomatch no.1
  have read := readHead_bytes wf (all (h.bytes ++ rest))
  rw [same, readHead_bytes wf' (all _)] at read
  cases read
  exact ⟨rfl, rfl⟩

theorem layout_unique {data : Bytes} {f f' : EncFields} (here : Layout data f)
    (here' : Layout data f') : f = f' := by
  obtain ⟨head, same⟩ := head_unique here.head here'.head (here.bytes.symm.trans here'.bytes)
  have len : f.ct.length = f'.ct.length := by
    rw [here.ct, here'.ct, head]
  obtain ⟨ct, same⟩ := List.append_inj same len
  obtain ⟨mac, rest⟩ := List.append_inj same (here.mac.trans here'.mac.symm)
  cases f
  cases f'
  simp_all

theorem fault_bind (f : α → Routine β) :
    ((.ask .fault Empty.elim : Routine α) >>= f) = .ask .fault Empty.elim := by
  refine congrArg (Lib.Prog.ask (I := Calls) Call.fault) (funext fun none => ?_)
  exact none.elim

/-- `malloc` refused one of the buffers that the file is read into. -/
def Faults (calls : DecCalls) (data : Bytes) : Prop := HeadFault calls data ∨ TextFault calls data

section

variable (decrypt : (key nonce ct mac : Bytes) → Option Bytes) (calls : DecCalls) (ctx : Ctx)
  {files : Files} {inPath data : Bytes} (outPath : Bytes)

/-- What becomes of a file: the process ends, it is no `.enc` file, or its fields are opened. -/
theorem shyakeDecFile_cases (here : files inPath = some data) :
    Faults calls data ∧ shyakeDecFile kdf keyAead decrypt calls ctx files inPath outPath =
        .ask .fault Empty.elim ∨
      ¬ Faults calls data ∧
        ((∀ f, ¬ Layout data f) ∧
            shyakeDecFile kdf keyAead decrypt calls ctx files inPath outPath = .ret badFormat ∨
          ∃ f, Layout data f ∧ shyakeDecFile kdf keyAead decrypt calls ctx files inPath outPath =
            openFields kdf keyAead decrypt calls ctx files outPath f) := by
  unfold shyakeDecFile
  rw [here]
  dsimp only
  by_cases null : HeadFault calls data
  · refine .inl ⟨.inl null, ?_⟩
    have read : readHead calls data = .ask .fault Empty.elim := by
      unfold readHead
      dsimp only
      rw [fread_null null, fault_bind]
    rw [read, fault_bind]
  rcases readHead_cases calls data null with read | ⟨h, rest, wf, rfl, read⟩
  · -- a file with a head is read
    have noHead (h : EncHead) (rest : Bytes) (wf : h.WellFormed) : data ≠ h.bytes ++ rest := by
      rintro rfl
      rw [readHead_bytes wf null] at read
      cases read
    refine .inr ⟨?_, .inl ⟨fun f layout => noHead _ _ layout.head layout.bytes, ?_⟩⟩
    · rintro (null' | ⟨h, rest, wf, same, -⟩)
      · exact null null'
      · exact noHead h rest wf same
    · rw [read]
      rfl
  rw [read, Lib.Prog.ret_bind]
  dsimp only
  by_cases null' : calls.ct = false ∧ 0 < h.ptLen ∧ rest ≠ []
  · refine .inl ⟨.inr ⟨h, rest, wf, rfl, null'⟩, ?_⟩
    have read : readText calls h rest = .ask .fault Empty.elim := by
      unfold readText
      rw [fread_null null', fault_bind]
    rw [read, fault_bind]
  have safe : ¬ Faults calls (h.bytes ++ rest) := by
    rintro (no | ⟨h', rest', wf', same, no⟩)
    · exact null no
    · obtain ⟨rfl, rfl⟩ := head_unique wf wf' same
      exact null' no
  refine .inr ⟨safe, ?_⟩
  rcases readText_cases calls h rest null' with ⟨read, short⟩ | ⟨ct, mac, rest, len, len', rfl, read⟩
  · refine .inl ⟨fun f layout => ?_, ?_⟩
    · obtain ⟨rfl, rfl⟩ := head_unique wf layout.head layout.bytes
      have text := layout.ct
      have tag := layout.mac
      simp only [List.length_append] at short
      omega
    · rw [read]
      rfl
  · refine .inr ⟨⟨h, ct, mac, rest⟩, ⟨wf, len, len', rfl⟩, ?_⟩
    rw [read]
    rfl

end

/-! ## What is accepted -/

/-- The answers of a decapsulation that is any function of its two buffers. -/
def decapsBy (decaps : (ct sk : Bytes) → Option Bytes) : (c : Call) → Option c.Answer
  | .decaps ct sk => some (decaps ct sk)
  | .sign _ _ => some []
  | .fault => none

/-- The KEM ciphertext of a call is as long as ML-KEM-768 has it. -/
def WholeCiphertext : Call → Prop
  | .decaps ct _ => ct.length = lengthCiphertext
  | _ => True

variable (decrypt : (key nonce ct mac : Bytes) → Option Bytes) (calls : DecCalls) (ctx : Ctx)
  (files : Files) (decaps : (ct sk : Bytes) → Option Bytes)

/-- The file has the layout that is written, and its tag is right. -/
def Genuine (data : Bytes) : Prop :=
  ∃ f, Layout data f ∧ f.rest = [] ∧ f.kemCt.length = lengthCiphertext ∧
    ∃ ksk, Calls.loadKsk kdf keyAead ctx files = .ok ksk ∧
      ∃ ss, decaps f.kemCt ksk = some ss ∧ (decrypt (xor f.ek ss) f.nonce f.ct f.mac).isSome

/-- Only the layout that is written is accepted, and everything else is rejected. -/
structure AcceptsLayout (inPath outPath data : Bytes) : Prop where
  reached : (shyakeDecFile kdf keyAead decrypt calls ctx files inPath outPath).Asks WholeCiphertext
  accepted : ∀ d, (shyakeDecFile kdf keyAead decrypt calls ctx files inPath outPath).result
    (decapsBy decaps) = some d → d.err = .OK → Genuine kdf keyAead decrypt ctx files decaps data
  rejected : ¬ Genuine kdf keyAead decrypt ctx files decaps data →
    ∃ d, (shyakeDecFile kdf keyAead decrypt calls ctx files inPath outPath).result
      (decapsBy decaps) = some d ∧ d.err ≠ .OK ∧ d.out = none

/-- Where the fields are all there and the secret key is loaded, the KEM ciphertext has its length,
and nothing comes of it: the tag is wrong, or the output cannot be opened. -/
def ComesToNothing (data : Bytes) : Prop :=
  ∀ f ksk, Layout data f → Calls.loadKsk kdf keyAead ctx files = .ok ksk → calls.kem = true →
    f.kemCt.length = lengthCiphertext ∧
      ∀ ss, decaps f.kemCt ksk = some ss → (decrypted decrypt calls f ss).isSome →
        calls.out = false

variable {decrypt calls decaps} in
/-- Nothing is asked behind a decapsulation but for a fault. -/
theorem decapsulated_asks (outPath : Bytes) (f : EncFields) (ss : Option Bytes) :
    (decapsulated decrypt calls outPath f ss).Asks WholeCiphertext := by
  unfold decapsulated
  cases ss with
  | none => trivial
  | some ss =>
    dsimp only
    split
    · trivial
    · split
      · trivial
      · exact asks_deref_of trivial fun _ _ => trivial

/-- It comes to a rejection, or to an output if the plaintext has a buffer. -/
theorem decapsulated_result (outPath : Bytes) (f : EncFields) (ss : Option Bytes) :
    (∃ d, (decapsulated decrypt calls outPath f ss).result (decapsBy decaps) = some d ∧
        d.err ≠ .OK ∧ d.out = none) ∧
        (∀ s, ss = some s → (decrypted decrypt calls f s).isSome → calls.out = false) ∨
      (∃ s, ss = some s ∧ (decrypted decrypt calls f s).isSome ∧ calls.out = true) ∧
        ∀ d, (decapsulated decrypt calls outPath f ss).result (decapsBy decaps) = some d →
          d.err = .OK := by
  unfold decapsulated
  cases ss with
  | none => exact .inl ⟨⟨_, rfl, nofun, rfl⟩, nofun⟩
  | some s =>
    dsimp only
    cases text : decrypted decrypt calls f s with
    | none =>
      refine .inl ⟨⟨_, rfl, nofun, rfl⟩, ?_⟩
      rintro s' ⟨⟩ some
      rw [text] at some
      cases some
    | some pt =>
      dsimp only
      by_cases out : calls.out = false
      · rw [if_pos out]
        exact .inl ⟨⟨_, rfl, nofun, rfl⟩, fun _ _ _ => out⟩
      · rw [if_neg out]
        refine .inr ⟨⟨s, rfl, by rw [text]; rfl, by simpa using out⟩, fun d run => ?_⟩
        rw [Lib.Prog.result_bind, result_deref rfl] at run
        obtain ⟨pt, -, run⟩ := Option.bind_eq_some_iff.mp run
        cases run
        rfl

namespace Sample

def everyBuffer : DecCalls := ⟨true, true, true, true, false, true⟩

/-- A file with a KEM ciphertext of that length, an empty text, and the tag of the key that is all
zeros. -/
def fieldsOf (kemCtLen : Nat) : EncFields where
  kemCt := List.replicate kemCtLen 0
  ek := List.replicate 32 0
  ptLen := 0
  nonce := List.replicate 12 0
  ct := []
  mac := List.replicate 16 0
  rest := []

def encFile (kemCtLen : Nat) : Bytes :=
  (fieldsOf kemCtLen).toEncHead.bytes ++ ([] ++ (List.replicate 16 0 ++ []))

theorem layout_encFile {kemCtLen : Nat} (small : kemCtLen < 2 ^ 32) :
    Layout (encFile kemCtLen) (fieldsOf kemCtLen) where
  head := ⟨by rw [show (fieldsOf kemCtLen).kemCt = List.replicate kemCtLen 0 from rfl,
    List.length_replicate]; exact small, List.length_replicate, show 0 < 2 ^ 32 by decide,
    List.length_replicate⟩
  ct := rfl
  mac := List.length_replicate
  bytes := rfl

/-- The secret key is stored as it is. -/
def keyedFiles (data : Bytes) : Files := fun path =>
  if path = alice.path (utf8 "kem_sk.bin") then some kemPair.sk
  else if path = utf8 "x.enc" then some data
  else none

theorem load_keyed (data : Bytes) :
    Calls.loadKsk plainKdf (fun _ => tagAead) alice (keyedFiles data) = .ok kemPair.sk := by
  have raw : kemPair.sk.take 4 ≠ SK_MAGIC := by
    unfold kemPair
    rw [List.take_replicate]
    decide
  unfold Calls.loadKsk loadSkDecrypted keyedFiles
  rw [if_pos rfl]
  exact openSk_raw plainKdf _ raw _

theorem keyedFiles_enc (data : Bytes) : keyedFiles data (utf8 "x.enc") = some data := by
  unfold keyedFiles
  rw [if_neg (by decide), if_pos rfl]

/-- The shared secret is all zeros. -/
def zeroDecaps (_ct _sk : Bytes) : Option Bytes := some (List.replicate 32 0)

end Sample

end Shyake.Client
