import Angel.Dns.Name
import Angel.Util

/-!
Queries and answers of `resolver.cc`: the question a query sends, the records of
an answer section, and `resolver::unpack`, which matches a datagram against the
pending queries.
-/

namespace Angel.Dns

open Angel.Lib

def maxLabelSize : Nat := 63

def maxNameSize : Nat := 255

/-- The length octets and labels of a name, and the zero octet that ends it. -/
def wire (labels : List Bytes) : Bytes :=
  labels.flatMap (fun label => UInt8.ofNat label.length :: label) ++ [0]

/-- `to_dns_name`; the empty string where the name is illegal. -/
def toDnsName (name : Bytes) : Bytes :=
  let name := if name.getLast? = some DOT then name.dropLast else name
  if name = [] then []
  else
    let labels := Util.split name DOT
    if labels.any fun label => label.length = 0 || maxLabelSize < label.length then []
    else
      let res := wire labels
      if maxNameSize < res.length then [] else res

/-- The part of a `query_context` that a response is matched with. Queries with
an illegal name are not sent. -/
structure QueryContext where
  id : Nat
  name : Bytes
  qName : Bytes
  qType : Nat
  qClass : Nat
  qName_eq : qName = toDnsName name
  qName_ne : qName ≠ []

/-- The types of records that the resolver knows. -/
inductive RrType where
  | A
  | NS
  | CNAME
  | SOA
  | PTR
  | MX
  | TXT
  deriving DecidableEq, Repr

namespace RrType

def code : RrType → Nat
  | A => 1
  | NS => 2
  | CNAME => 5
  | SOA => 6
  | PTR => 12
  | MX => 15
  | TXT => 16

def ofCode (code : Nat) : Option RrType :=
  [A, NS, CNAME, SOA, PTR, MX, TXT].find? fun type => type.code = code

theorem ofCode_code (type : RrType) : ofCode type.code = some type := by
  cases type <;> rfl

theorem code_of_ofCode {code : Nat} {type : RrType} (h : ofCode code = some type) :
    code = type.code := by
  have hcode := List.find?_some h
  rw [decide_eq_true_eq] at hcode
  exact hcode.symm

end RrType

/-- `rr_base`. -/
structure RrBase where
  name : Bytes
  type : Nat
  _class : Nat
  ttl : Nat
  len : Nat
  deriving DecidableEq, Repr

/-- What the classes derived from `rr_base` add. -/
inductive Rdata where
  | a (addr : Bytes)
  | ns (nsName : Bytes)
  | cname (cname : Bytes)
  | mx (preference : Nat) (exchangeName : Bytes)
  | txt (str : Bytes)
  | soa (mname rname : Bytes) (serial refresh retry expire minimum : Nat)
  | ptr (ptrName : Bytes)
  deriving DecidableEq, Repr

structure Record where
  base : RrBase
  rdata : Rdata
  deriving DecidableEq, Repr

/-- Why no record or result comes of a datagram. -/
inductive Refusal where
  /-- `return` without a result. -/
  | rejected
  | assertFailed
  /-- A record of a type that the `switch` does not know: its pointer has no
  value of its own. -/
  | undefined
  /-- A name that is not read in the passes allowed. -/
  | unfinished
  deriving DecidableEq, Repr

section

variable (d : Bytes) (fuel : Nat)

/-- `parse_dns_name` as its callers use it: the empty string is an error. -/
def parseDname (p : Nat) : Except Refusal (Bytes × Nat) :=
  match parseDnsName d fuel p with
  | none => .error .unfinished
  | some .assertFailed => .error .assertFailed
  | some (.name text cur) => if text = [] then .error .rejected else .ok (text, cur)

def parseRrBase (p : Nat) : Except Refusal (RrBase × Nat) := do
  let (name, p) ← parseDname d fuel p
  if name.getLast? ≠ some DOT then .error .assertFailed
  else if p + 10 ≥ d.length then .error .rejected
  else
    let rr : RrBase :=
      { name := name.dropLast
        type := Sockops.ntohs (u16 d p)
        _class := Sockops.ntohs (u16 d (p + 2))
        ttl := Sockops.ntohl (u32 d (p + 4))
        len := Sockops.ntohs (u16 d (p + 8)) }
    let p := p + 10
    if 0 < rr.len ∧ p + rr.len ≤ d.length then .ok (rr, p) else .error .rejected

/-- `to_host_ip`: the four bytes of an address in decimal. -/
def toHostIp (sAddr : Nat) : Bytes :=
  [DOT].intercalate ((object 4 sAddr).map fun byte => Util.decimal byte.toNat)

def parseARdata (rr : RrBase) (p : Nat) : Except Refusal (Rdata × Nat) :=
  if rr.len ≠ 4 then .error .rejected else .ok (.a (toHostIp (u32 d p)), p + 4)

def parseMxRdata (rr : RrBase) (p : Nat) : Except Refusal (Rdata × Nat) :=
  if rr.len ≤ 2 then .error .rejected
  else do
    let preference := Sockops.ntohs (u16 d p)
    let (exchangeName, p) ← parseDname d fuel (p + 2)
    .ok (.mx preference exchangeName, p)

def parseCnameRdata (p : Nat) : Except Refusal (Rdata × Nat) := do
  let (cname, p) ← parseDname d fuel p
  .ok (.cname cname, p)

def parseNsRdata (p : Nat) : Except Refusal (Rdata × Nat) := do
  let (nsName, p) ← parseDname d fuel p
  .ok (.ns nsName, p)

def parseSoaRdata (p : Nat) : Except Refusal (Rdata × Nat) := do
  let (mname, p) ← parseDname d fuel p
  let (rname, p) ← parseDname d fuel p
  if p + 20 > d.length then .error .rejected
  else
    let serial := Sockops.ntohl (u32 d p)
    let refresh := Sockops.ntohl (u32 d (p + 4))
    let retry := Sockops.ntohl (u32 d (p + 8))
    let expire := Sockops.ntohl (u32 d (p + 12))
    let minimum := Sockops.ntohl (u32 d (p + 16))
    .ok (.soa mname rname serial refresh retry expire minimum, p + 20)

def parseTxtRdata (rr : RrBase) (p : Nat) : Except Refusal (Rdata × Nat) :=
  let len := (d.getD p 0).toNat
  let p := p + 1
  if len + 1 ≠ rr.len then .error .rejected else .ok (.txt ((d.drop p).take len), p + len)

def parsePtrRdata (p : Nat) : Except Refusal (Rdata × Nat) := do
  let (ptrName, p) ← parseDname d fuel p
  .ok (.ptr ptrName, p)

/-- The `switch` of `parse_answer_rrs`. -/
def parseRdata (rr : RrBase) (p : Nat) : Except Refusal (Rdata × Nat) :=
  match RrType.ofCode rr.type with
  | some .A => parseARdata d rr p
  | some .MX => parseMxRdata d fuel rr p
  | some .NS => parseNsRdata d fuel p
  | some .SOA => parseSoaRdata d fuel p
  | some .PTR => parsePtrRdata d fuel p
  | some .TXT => parseTxtRdata d rr p
  | some .CNAME => parseCnameRdata d fuel p
  | none => .error .undefined

/-- `parse_answer_rrs`. -/
def parseAnswerRrs : (answer : Nat) → (p : Nat) → Except Refusal (List Record × Nat)
  | 0, p => .ok ([], p)
  | answer + 1, p => do
      let (rr, p) ← parseRrBase d fuel p
      let (rdata, p) ← parseRdata d fuel rr p
      let (res, p) ← parseAnswerRrs answer p
      .ok (⟨rr, rdata⟩ :: res, p)

def matchName (name rname : Bytes) : Bool :=
  name = if rname.getLast? = some DOT then rname.dropLast else rname

/-- What `unpack` does to the promise of a query. -/
inductive Notice where
  | result (records : List Record)
  | error (rcode : Nat)
  deriving DecidableEq, Repr

/-- `resolver::unpack`: the query that is notified and what it is told. -/
def unpack (queryMap : Nat → Option QueryContext) : Except Refusal (QueryContext × Notice) :=
  if d.length < 12 then .error .rejected
  else
    let id := Sockops.ntohs (u16 d 0)
    let qr := (d.getD 2 0) >>> 7
    let rcode := (d.getD 3 0) &&& 0x0f
    if qr = 0 then .error .rejected
    else
      match queryMap id with
      | none => .error .rejected
      | some qc =>
          if rcode ≠ 0 then .ok (qc, .error rcode.toNat)
          else
            let qdCount := Sockops.ntohs (u16 d 4)
            let anCount := Sockops.ntohs (u16 d 6)
            if qdCount ≠ 1 then .error .rejected
            else do
              let (name, p) ← parseDname d fuel 12
              if !matchName qc.name name then .error .rejected
              else if p + 4 ≥ d.length ∨ qc.qType ≠ Sockops.ntohs (u16 d p) ∨
                  qc.qClass ≠ Sockops.ntohs (u16 d (p + 2)) then
                .error .rejected
              else
                let (res, p) ← parseAnswerRrs d fuel anCount (p + 4)
                if p ≠ d.length then .error .rejected else .ok (qc, .result res)

end

end Angel.Dns
