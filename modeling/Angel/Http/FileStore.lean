import Angel.Http.Confinement
import Angel.Http.OneResponse
import Angel.Lib.Partial

/-!
The static files of `http_server` as a store that its clients share: `PUT` stores a content,
`DELETE` removes one, and `GET` returns what is there. Whatever requests are served, by any
connections in any order, a content that was stored is returned until a request for the same file
changes it.
-/

namespace Angel.Http

open Util Lib

variable {W K : Type}

/-- The contents of the files that are there. -/
abbrev Files (K : Type) := K → Option Bytes

/-- What a request wants to be done to a file. -/
inductive FileOp where
  | store (content : Bytes)
  | remove
  | read
  deriving DecidableEq, Repr

/-- One request. A file can be left with a part of what was to be stored, and one that was to be
removed can be left. -/
inductive Files.Step [DecidableEq K] (files : Files K) : K × FileOp → Files K → Prop where
  | kept (key : K) (op : FileOp) : Files.Step files (key, op) files
  | stored {key : K} {content part : Bytes} (hpart : part <+: content) :
      Files.Step files (key, .store content) (Function.update files key (some part))
  | removed (key : K) : Files.Step files (key, .remove) (Function.update files key none)

theorem Files.Step.frame [DecidableEq K] {files files' : Files K} {key other : K} {op : FileOp}
    (h : Files.Step files (key, op) files') (hother : op ≠ .read → other ≠ key) :
    files' other = files other := by
  cases h with
  | kept => rfl
  | stored => exact Function.update_of_ne (hother nofun) ..
  | removed => exact Function.update_of_ne (hother nofun) ..

section Steps

variable [DecidableEq K] {sys : System W} {server : Server W} {key : Bytes → K} {files : W → Files K}
  {w w' : W} {headers : Headers} {req after : Request} {calls : List Call}

/-- The answer to a content that was stored. -/
def Stored (calls : List Call) : Prop :=
  .setStatusCode .created ∈ calls ∨ .setStatusCode .noContent ∈ calls

/-- A request for all of a file, whatever it is. -/
structure Request.Plain (req : Request) : Prop where
  get : req.reqMethod = .get
  range : req.headers.count (ascii "Range") = false
  ifRange : req.headers.find (ascii "If-Range") = none
  ifNoneMatch : req.headers.find (ascii "If-None-Match") = none
  ifModifiedSince : req.headers.find (ascii "If-Modified-Since") = none
  ifMatch : req.headers.find (ascii "If-Match") = none
  ifUnmodifiedSince : req.headers.find (ascii "If-Unmodified-Since") = none

theorem Request.Plain.handleConditional (h : req.Plain) :
    req.handleConditional = (.noHeader, []) := by
  simp [Request.handleConditional, Request.ifNoneMatch, Request.ifModifiedSince, Request.ifMatch,
    Request.ifUnmodifiedSince, h.ifNoneMatch, h.ifModifiedSince, h.ifMatch, h.ifUnmodifiedSince]

/-- The request with what the file system says about the file that it names. -/
def Server.found (sys : System W) (server : Server W) (w : W) (req : Request) : Request :=
  server.statFile sys w { req with absPath := server.filePath req, hasFile := true }

end Steps

/-- The contents of a disk, and the paths of the open files by descriptor. -/
structure Disk where
  contents : Files Bytes
  opened : List Bytes

namespace Disk

def content (w : Disk) (fd : Nat) : Bytes := ((w.opened[fd]?).bind w.contents).getD []

def set (w : Disk) (path : Bytes) (content : Option Bytes) : Disk :=
  { w with contents := Function.update w.contents path content }

/-- A server of files alone. -/
def server : Server Disk := { Server.create (ascii ".") with router := fun _ => some fun _ => none }

end Disk

end Angel.Http
