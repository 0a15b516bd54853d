import Angel.Dns.Records

/-!
The reads of `resolver::unpack`: the same code over a datagram that refuses a
read of any byte outside of it. The outer `Option` is `none` where a byte before
`peek()` or from `end()` on is asked for, which no datagram brings about.
-/

namespace Angel.Dns.Bounds

open Angel.Lib

/-- A part of `unpack` that may read outside the datagram. -/
abbrev Reads := ExceptT Refusal Option

section

variable (d : Bytes) (fuel : Nat)

def byteIn (p : Nat) : Option UInt8 := if p < d.length then some (d.getD p 0) else none

def u16In (p : Nat) : Option Nat := if p + 2 ≤ d.length then some (u16 d p) else none

def u32In (p : Nat) : Option Nat := if p + 4 ≤ d.length then some (u32 d p) else none

/-- The `count` bytes from `p` on. -/
def bytesIn (p count : Nat) : Option Bytes :=
  if p + count ≤ d.length then some ((d.drop p).take count) else none

/-- The `while` loop of `parse_dns_name`. -/
def scanIn : Nat → Nat → Bytes → Option Scan
  | 0, cur, _ => some (.done [] cur)
  | steps + 1, cur, res =>
      if cur < d.length then do
        let byte ← byteIn d cur
        if byte &&& 0xc0 = 0xc0 then
          if cur + 2 > d.length then some (.done [] cur)
          else do
            let word ← u16In d cur
            let offset := Sockops.ntohs word &&& 0x3fff
            if offset ≥ d.length then some (.done [] (cur + 2))
            else some (.follow res offset (cur + 2))
        else
          let count := byte.toNat
          if count = 0 then
            some (if res.getLast? = some DOT then .done res (cur + 1) else .assertFailed)
          else if cur + 1 + count ≥ d.length then some (.done [] (cur + 1))
          else do
            let text ← bytesIn d (cur + 1) count
            scanIn steps (cur + 1 + count) (res ++ text ++ [DOT])
      else some (.done [] cur)

/-- `parse_dns_name`; the inner `none` is a depth that `fuel` does not cover. -/
def parseDnsNameIn : Nat → Nat → Option (Option Parsed)
  | 0, _ => some none
  | fuel + 1, cur => do
      let scanned ← scanIn d (d.length - cur) cur []
      match scanned with
      | .done text cur => some (some (.name text cur))
      | .assertFailed => some (some .assertFailed)
      | .follow res p cur => do
          let inner ← parseDnsNameIn fuel p
          match inner with
          | none => some none
          | some .assertFailed => some (some .assertFailed)
          | some (.name text _) => some (some (.name (res ++ text) cur))

def parseDnameIn (p : Nat) : Reads (Bytes × Nat) := do
  let parsed ← parseDnsNameIn d fuel p
  match parsed with
  | none => throw .unfinished
  | some .assertFailed => throw .assertFailed
  | some (.name text cur) => if text = [] then throw .rejected else pure (text, cur)

def parseRrBaseIn (p : Nat) : Reads (RrBase × Nat) := do
  let (name, p) ← parseDnameIn d fuel p
  if name.getLast? ≠ some DOT then throw .assertFailed
  else if p + 10 ≥ d.length then throw .rejected
  else do
    let type ← u16In d p
    let _class ← u16In d (p + 2)
    let ttl ← u32In d (p + 4)
    let len ← u16In d (p + 8)
    let rr : RrBase :=
      { name := name.dropLast
        type := Sockops.ntohs type
        _class := Sockops.ntohs _class
        ttl := Sockops.ntohl ttl
        len := Sockops.ntohs len }
    let p := p + 10
    if 0 < rr.len ∧ p + rr.len ≤ d.length then pure (rr, p) else throw .rejected

def parseARdataIn (rr : RrBase) (p : Nat) : Reads (Rdata × Nat) :=
  if rr.len ≠ 4 then throw .rejected
  else do
    let sAddr ← u32In d p
    pure (.a (toHostIp sAddr), p + 4)

def parseMxRdataIn (rr : RrBase) (p : Nat) : Reads (Rdata × Nat) :=
  if rr.len ≤ 2 then throw .rejected
  else do
    let preference ← u16In d p
    let (exchangeName, p) ← parseDnameIn d fuel (p + 2)
    pure (.mx (Sockops.ntohs preference) exchangeName, p)

def parseCnameRdataIn (p : Nat) : Reads (Rdata × Nat) := do
  let (cname, p) ← parseDnameIn d fuel p
  pure (.cname cname, p)

def parseNsRdataIn (p : Nat) : Reads (Rdata × Nat) := do
  let (nsName, p) ← parseDnameIn d fuel p
  pure (.ns nsName, p)

def parseSoaRdataIn (p : Nat) : Reads (Rdata × Nat) := do
  let (mname, p) ← parseDnameIn d fuel p
  let (rname, p) ← parseDnameIn d fuel p
  if p + 20 > d.length then throw .rejected
  else do
    let serial ← u32In d p
    let refresh ← u32In d (p + 4)
    let retry ← u32In d (p + 8)
    let expire ← u32In d (p + 12)
    let minimum ← u32In d (p + 16)
    pure (.soa mname rname (Sockops.ntohl serial) (Sockops.ntohl refresh) (Sockops.ntohl retry)
      (Sockops.ntohl expire) (Sockops.ntohl minimum), p + 20)

def parseTxtRdataIn (rr : RrBase) (p : Nat) : Reads (Rdata × Nat) := do
  let byte ← byteIn d p
  let len := byte.toNat
  let p := p + 1
  if len + 1 ≠ rr.len then throw .rejected
  else do
    let str ← bytesIn d p len
    pure (.txt str, p + len)

def parsePtrRdataIn (p : Nat) : Reads (Rdata × Nat) := do
  let (ptrName, p) ← parseDnameIn d fuel p
  pure (.ptr ptrName, p)

/-- The `switch` of `parse_answer_rrs`. -/
def assignRecordIn (rr : RrBase) (p : Nat) (record : Pointer) : Reads (Pointer × Nat) :=
  let assign (data : Reads (Rdata × Nat)) : Reads (Pointer × Nat) := do
    let (rdata, p) ← data
    pure (.to ⟨rr, rdata⟩, p)
  match RrType.ofCode rr.type with
  | some .A => assign (parseARdataIn d rr p)
  | some .MX => assign (parseMxRdataIn d fuel rr p)
  | some .NS => assign (parseNsRdataIn d fuel p)
  | some .SOA => assign (parseSoaRdataIn d fuel p)
  | some .PTR => assign (parsePtrRdataIn d fuel p)
  | some .TXT => assign (parseTxtRdataIn d rr p)
  | some .CNAME => assign (parseCnameRdataIn d fuel p)
  | none => pure (record, p)

def answerPassIn (p : Nat) (record : Pointer) : Reads (Pointer × Nat) := do
  let (rr, p) ← parseRrBaseIn d fuel p
  let (record, p) ← assignRecordIn d fuel rr p record
  if record = .null then throw .rejected else pure (record, p)

/-- `parse_answer_rrs`. -/
def parseAnswerRrsIn : (answer : Nat) → (p : Nat) → (record : Pointer) →
    Reads (List Pointer × Nat)
  | 0, p, _ => pure ([], p)
  | answer + 1, p, record => do
      let (record, p) ← answerPassIn d fuel p record
      let (res, p) ← parseAnswerRrsIn answer p record
      pure (record :: res, p)

/-- `resolver::unpack`. -/
def unpackIn (queryMap : Nat → Option QueryContext) (record : Pointer) :
    Reads (QueryContext × Reply) :=
  if d.length < 12 then throw .rejected
  else do
    let id ← u16In d 0
    let flags ← byteIn d 2
    let codes ← byteIn d 3
    let qr := flags >>> 7
    let rcode := codes &&& 0x0f
    if qr = 0 then throw .rejected
    else
      match queryMap (Sockops.ntohs id) with
      | none => throw .rejected
      | some qc =>
          if rcode ≠ 0 then pure (qc, .error rcode.toNat)
          else do
            let qdCount ← u16In d 4
            let anCount ← u16In d 6
            let _nsCount ← u16In d 8
            let _arCount ← u16In d 10
            if Sockops.ntohs qdCount ≠ 1 then throw .rejected
            else do
              let (name, p) ← parseDnameIn d fuel 12
              if !matchName qc.name name then throw .rejected
              else if p + 4 ≥ d.length then throw .rejected
              else do
                let qType ← u16In d p
                if qc.qType ≠ Sockops.ntohs qType then throw .rejected
                else do
                  let qClass ← u16In d (p + 2)
                  if qc.qClass ≠ Sockops.ntohs qClass then throw .rejected
                  else do
                    let (res, p) ← parseAnswerRrsIn d fuel (Sockops.ntohs anCount) (p + 4) record
                    if p ≠ d.length then throw .rejected else pure (qc, .result res)

end

section

variable {d : Bytes} {fuel : Nat}

theorem byteIn_eq {p : Nat} (h : p < d.length) : byteIn d p = some (d.getD p 0) := if_pos h

theorem u16In_eq {p : Nat} (h : p + 2 ≤ d.length) : u16In d p = some (u16 d p) := if_pos h

theorem u32In_eq {p : Nat} (h : p + 4 ≤ d.length) : u32In d p = some (u32 d p) := if_pos h

theorem bytesIn_eq {p count : Nat} (h : p + count ≤ d.length) :
    bytesIn d p count = some ((d.drop p).take count) := if_pos h

private theorem scanIn_eq (steps cur : Nat) (res : Bytes) :
    scanIn d steps cur res = some (scan d steps cur res) := by
  induction steps generalizing cur res with
  | zero => rfl
  | succ steps ih =>
      rw [scanIn, scan]
      by_cases hcur : cur < d.length
      · rw [if_pos hcur, if_pos hcur, byteIn_eq hcur]
        simp only [Option.bind_eq_bind, Option.bind_some]
        by_cases hbits : d.getD cur 0 &&& 0xc0 = 0xc0
        · rw [if_pos hbits, if_pos hbits]
          by_cases htwo : cur + 2 > d.length
          · rw [if_pos htwo, if_pos htwo]
          · rw [if_neg htwo, if_neg htwo, u16In_eq (by omega)]
            simp only [Option.bind_some]
            split <;> rfl
        · rw [if_neg hbits, if_neg hbits]
          by_cases hzero : (d.getD cur 0).toNat = 0
          · rw [if_pos hzero, if_pos hzero]
          · rw [if_neg hzero, if_neg hzero]
            by_cases hover : cur + 1 + (d.getD cur 0).toNat ≥ d.length
            · rw [if_pos hover, if_pos hover]
            · rw [if_neg hover, if_neg hover, bytesIn_eq (by omega)]
              exact ih _ _
      · rw [if_neg hcur, if_neg hcur]

theorem parseDnsNameIn_eq (fuel cur : Nat) :
    parseDnsNameIn d fuel cur = some (parseDnsName d fuel cur) := by
  induction fuel generalizing cur with
  | zero => rfl
  | succ fuel ih =>
      rw [parseDnsNameIn, parseDnsName, scanIn_eq]
      simp only [Option.bind_eq_bind, Option.bind_some]
      cases scan d (d.length - cur) cur [] with
      | done text next => rfl
      | assertFailed => rfl
      | follow res p next =>
          simp only [ih p, Option.bind_some]
          cases parseDnsName d fuel p with
          | none => rfl
          | some parsed => cases parsed <;> rfl

theorem run_bind_eq {α β : Type} {x : Reads α} {y : Except Refusal α} {f : α → Reads β}
    {g : α → Except Refusal β} (hx : x.run = some y)
    (hf : ∀ a, y = .ok a → (f a).run = some (g a)) : (x >>= f).run = some (y >>= g) := by
  rw [ExceptT.run_bind, hx]
  cases y with
  | error e => rfl
  | ok a => exact hf a rfl

theorem run_read_bind {α β : Type} {x : Option α} {a : α} {f : α → Reads β} (hx : x = some a) :
    ((liftM x : Reads α) >>= f).run = (f a).run := by
  rw [hx]
  rfl

theorem parseDnameIn_eq (p : Nat) : (parseDnameIn d fuel p).run = some (parseDname d fuel p) := by
  rw [parseDnameIn, run_read_bind (parseDnsNameIn_eq fuel p), parseDname]
  cases parseDnsName d fuel p with
  | none => rfl
  | some parsed =>
      cases parsed with
      | assertFailed => rfl
      | name text cur =>
          simp only
          split <;> rfl

theorem parseRrBaseIn_eq (p : Nat) :
    (parseRrBaseIn d fuel p).run = some (parseRrBase d fuel p) := by
  rw [parseRrBaseIn, parseRrBase]
  refine run_bind_eq (parseDnameIn_eq p) fun r _ => ?_
  simp only
  by_cases hdot : r.1.getLast? ≠ some DOT
  · rw [if_pos hdot, if_pos hdot]
    rfl
  rw [if_neg hdot, if_neg hdot]
  by_cases hroom : r.2 + 10 ≥ d.length
  · rw [if_pos hroom, if_pos hroom]
    rfl
  rw [if_neg hroom, if_neg hroom, run_read_bind (u16In_eq (by omega)),
    run_read_bind (u16In_eq (by omega)), run_read_bind (u32In_eq (by omega)),
    run_read_bind (u16In_eq (by omega))]
  split <;> rfl

theorem parseARdataIn_eq {rr : RrBase} {p : Nat} (hin : p + rr.len ≤ d.length) :
    (parseARdataIn d rr p).run = some (parseARdata d rr p) := by
  rw [parseARdataIn, parseARdata]
  by_cases hlen : rr.len ≠ 4
  · rw [if_pos hlen, if_pos hlen]
    rfl
  rw [if_neg hlen, if_neg hlen, run_read_bind (u32In_eq (by omega))]
  rfl

theorem parseMxRdataIn_eq {rr : RrBase} {p : Nat} (hin : p + rr.len ≤ d.length) :
    (parseMxRdataIn d fuel rr p).run = some (parseMxRdata d fuel rr p) := by
  rw [parseMxRdataIn, parseMxRdata]
  by_cases hlen : rr.len ≤ 2
  · rw [if_pos hlen, if_pos hlen]
    rfl
  rw [if_neg hlen, if_neg hlen, run_read_bind (u16In_eq (by omega))]
  apply run_bind_eq (parseDnameIn_eq _)
  intro r _
  rfl

theorem parseCnameRdataIn_eq (p : Nat) :
    (parseCnameRdataIn d fuel p).run = some (parseCnameRdata d fuel p) := by
  apply run_bind_eq (parseDnameIn_eq _)
  intro r _
  rfl

theorem parseNsRdataIn_eq (p : Nat) :
    (parseNsRdataIn d fuel p).run = some (parseNsRdata d fuel p) := by
  apply run_bind_eq (parseDnameIn_eq _)
  intro r _
  rfl

theorem parsePtrRdataIn_eq (p : Nat) :
    (parsePtrRdataIn d fuel p).run = some (parsePtrRdata d fuel p) := by
  apply run_bind_eq (parseDnameIn_eq _)
  intro r _
  rfl

theorem parseSoaRdataIn_eq (p : Nat) :
    (parseSoaRdataIn d fuel p).run = some (parseSoaRdata d fuel p) := by
  apply run_bind_eq (parseDnameIn_eq _)
  intro mname _
  apply run_bind_eq (parseDnameIn_eq _)
  intro rname _
  simp only
  by_cases hroom : rname.2 + 20 > d.length
  · rw [if_pos hroom, if_pos hroom]
    rfl
  rw [if_neg hroom, if_neg hroom, run_read_bind (u32In_eq (by omega)),
    run_read_bind (u32In_eq (by omega)), run_read_bind (u32In_eq (by omega)),
    run_read_bind (u32In_eq (by omega)), run_read_bind (u32In_eq (by omega))]
  rfl

private theorem parseTxtRdataIn_eq {rr : RrBase} {p : Nat} (hpos : 0 < rr.len)
    (hin : p + rr.len ≤ d.length) :
    (parseTxtRdataIn d rr p).run = some (parseTxtRdata d rr p) := by
  rw [parseTxtRdataIn, parseTxtRdata, run_read_bind (byteIn_eq (by omega))]
  simp only
  by_cases hlen : (d.getD p 0).toNat + 1 ≠ rr.len
  · rw [if_pos hlen, if_pos hlen]
    rfl
  rw [if_neg hlen, if_neg hlen, run_read_bind (bytesIn_eq (by omega))]
  rfl

private theorem assign_eq {rr : RrBase} {x : Reads (Rdata × Nat)} {y : Except Refusal (Rdata × Nat)}
    (h : x.run = some y) :
    (do
      let (rdata, p) ← x
      pure (Pointer.to ⟨rr, rdata⟩, p) : Reads (Pointer × Nat)).run =
      some (y.map fun r => (.to ⟨rr, r.1⟩, r.2)) := by
  rw [ExceptT.run_bind, h]
  cases y <;> rfl

private theorem assignRecordIn_eq {rr : RrBase} {p : Nat} (hpos : 0 < rr.len)
    (hin : p + rr.len ≤ d.length) (record : Pointer) :
    (assignRecordIn d fuel rr p record).run = some (assignRecord d fuel rr p record) := by
  cases htype : RrType.ofCode rr.type with
  | none =>
      rw [assignRecordIn, assignRecord, htype]
      rfl
  | some type =>
      rw [assignRecord_known htype, assignRecordIn, parseRdata, htype]
      cases type with
      | A => exact assign_eq (parseARdataIn_eq hin)
      | NS => exact assign_eq (parseNsRdataIn_eq p)
      | CNAME => exact assign_eq (parseCnameRdataIn_eq p)
      | SOA => exact assign_eq (parseSoaRdataIn_eq p)
      | PTR => exact assign_eq (parsePtrRdataIn_eq p)
      | MX => exact assign_eq (parseMxRdataIn_eq hin)
      | TXT => exact assign_eq (parseTxtRdataIn_eq hpos hin)

private theorem answerPassIn_eq (p : Nat) (record : Pointer) :
    (answerPassIn d fuel p record).run = some (answerPass d fuel p record) := by
  apply run_bind_eq (parseRrBaseIn_eq p)
  intro base hbase
  obtain ⟨hpos, hin⟩ := inside_of_parseRrBase hbase
  apply run_bind_eq (assignRecordIn_eq hpos hin record)
  intro assigned _
  simp only
  split <;> rfl

private theorem parseAnswerRrsIn_eq (answer p : Nat) (record : Pointer) :
    (parseAnswerRrsIn d fuel answer p record).run =
      some (parseAnswerRrsFrom d fuel answer p record) := by
  induction answer generalizing p record with
  | zero => rfl
  | succ answer ih =>
      apply run_bind_eq (answerPassIn_eq p record)
      intro pass _
      apply run_bind_eq (ih pass.2 pass.1)
      intro rest _
      rfl

/-- Whatever the datagram, the pending queries, the depth to which its names are
read and the value that `record` starts from, `unpack` reads no byte outside the
datagram; the bounds are those of the code, and it comes to the same end. -/
theorem unpack_reads_inside (d : Bytes) (fuel : Nat) (queryMap : Nat → Option QueryContext)
    (record : Pointer) :
    (unpackIn d fuel queryMap record).run = some (unpackFrom d fuel queryMap record) := by
  rw [unpackIn, unpackFrom]
  by_cases hheader : d.length < 12
  · rw [if_pos hheader, if_pos hheader]
    rfl
  rw [if_neg hheader, if_neg hheader, run_read_bind (u16In_eq (by omega)),
    run_read_bind (byteIn_eq (by omega)), run_read_bind (byteIn_eq (by omega))]
  simp only
  by_cases hqr : d.getD 2 0 >>> 7 = 0
  · rw [if_pos hqr, if_pos hqr]
    rfl
  rw [if_neg hqr, if_neg hqr]
  cases queryMap (Sockops.ntohs (u16 d 0)) with
  | none => rfl
  | some qc =>
      simp only
      by_cases hrcode : d.getD 3 0 &&& 0x0f ≠ 0
      · rw [if_pos hrcode, if_pos hrcode]
        rfl
      rw [if_neg hrcode, if_neg hrcode, run_read_bind (u16In_eq (by omega)),
        run_read_bind (u16In_eq (by omega)), run_read_bind (u16In_eq (by omega)),
        run_read_bind (u16In_eq (by omega))]
      by_cases hqd : Sockops.ntohs (u16 d 4) ≠ 1
      · rw [if_pos hqd, if_pos hqd]
        rfl
      rw [if_neg hqd, if_neg hqd]
      apply run_bind_eq (parseDnameIn_eq 12)
      intro name _
      by_cases hmatch : (!matchName qc.name name.1) = true
      · rw [if_pos hmatch, if_pos hmatch]
        rfl
      rw [if_neg hmatch, if_neg hmatch]
      by_cases hroom : name.2 + 4 ≥ d.length
      · rw [if_pos hroom, if_pos (.inl hroom)]
        rfl
      rw [if_neg hroom, run_read_bind (u16In_eq (by omega))]
      by_cases htype : qc.qType ≠ Sockops.ntohs (u16 d name.2)
      · rw [if_pos htype, if_pos (.inr (.inl htype))]
        rfl
      rw [if_neg htype, run_read_bind (u16In_eq (by omega))]
      by_cases hclass : qc.qClass ≠ Sockops.ntohs (u16 d (name.2 + 2))
      · rw [if_pos hclass, if_pos (.inr (.inr hclass))]
        rfl
      have hquestion : ¬ (name.2 + 4 ≥ d.length ∨ qc.qType ≠ Sockops.ntohs (u16 d name.2) ∨
          qc.qClass ≠ Sockops.ntohs (u16 d (name.2 + 2))) := by
        simp only [not_or]
        exact ⟨hroom, htype, hclass⟩
      rw [if_neg hclass, if_neg hquestion]
      apply run_bind_eq (parseAnswerRrsIn_eq _ _ record)
      intro answers _
      split <;> rfl

end

end Angel.Dns.Bounds
