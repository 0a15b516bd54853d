import Angel.Http.Pipeline
import Angel.Http.Server
import Angel.Lib.Path

/-!
Which files a request for a static file is about. `handle_static_file_request`
appends the decoded path of the request to the base directory and takes the result
as it is: it stays in the directory when the path starts with a separator and never
climbs above it.
-/

namespace Angel.Http

open Buffer Util Lib

variable {W : Type}

def Server.setBaseDir (server : Server W) (dir : Bytes) : Server W :=
  { server with baseDir := if dir.getLast? = some SLASH then dir.dropLast else dir }

/-- `abs_path` behind the first lines of `handle_static_file_request`. -/
def Server.filePath (server : Server W) (req : Request) : Bytes :=
  server.baseDir ++ (if req.absPath = ascii "/" then ascii "/index.html" else req.absPath)

/-- The file that a path names lies in the directory; the empty path names none. -/
def Confined (dir path : Bytes) : Prop :=
  cStr path = [] ∨ Path.Inside SLASH DOT (cStr dir) (cStr path)

instance (dir path : Bytes) : Decidable (Confined dir path) :=
  inferInstanceAs (Decidable (_ ∨ _))

/-- The path in a request line, decoded behind what the request has already. -/
def requestPath (absPath buf : Bytes) : Bytes :=
  match findCrlf buf with
  | none => absPath
  | some crlf =>
      match split (buf.take crlf) SP with
      | [_, target, _] => (decode (target.take (target.idxOf QUESTION)) absPath).2
      | _ => absPath

/-- A path that leads nowhere but down from where it is appended. -/
def Descends (path : Bytes) : Prop :=
  match path with
  | [] => True
  | c :: rest => c = SLASH ∧ Path.stays DOT 0 (Path.components SLASH rest) = true

instance (path : Bytes) : Decidable (Descends path) := by
  cases path with
  | nil => exact inferInstanceAs (Decidable True)
  | cons c rest =>
      exact inferInstanceAs (Decidable (c = SLASH ∧ Path.stays DOT 0 (Path.components SLASH rest) = true))

/-- Two systems that differ at most in what they do with other paths. -/
structure System.AgreeAt (path : Bytes) (sys sys' : System W) : Prop where
  now : sys.now = sys'.now
  order : sys.order = sys'.order
  isRegularFile : ∀ w, sys.isRegularFile w path = sys'.isRegularFile w path
  getLastModified : ∀ w, sys.getLastModified w path = sys'.getLastModified w path
  getFileSize : ∀ w, sys.getFileSize w path = sys'.getFileSize w path
  gmtime : sys.gmtime = sys'.gmtime
  hexDigest : ∀ w, sys.hexDigest w path = sys'.hexDigest w path
  getMimeType : sys.getMimeType path = sys'.getMimeType path
  generateBoundary : sys.generateBoundary = sys'.generateBoundary
  openRead : ∀ w, sys.openRead w path = sys'.openRead w path
  openTruncate : ∀ w, sys.openTruncate w path = sys'.openTruncate w path
  readAll : sys.readAll = sys'.readAll
  writeFile : sys.writeFile = sys'.writeFile
  close : sys.close = sys'.close
  unlink : ∀ w, sys.unlink w path = sys'.unlink w path

section AgreeAt

variable {sys sys' : System W} {server : Server W} {w : W} {headers : Headers} {req : Request}

theorem sendFile_agree (h : sys.AgreeAt req.absPath sys') : sendFile sys w req = sendFile sys' w req := by
  simp only [sendFile, h.openRead, h.getMimeType, h.readAll, h.close]

theorem updateFile_agree (h : sys.AgreeAt req.absPath sys') :
    updateFile sys w req = updateFile sys' w req := by
  simp only [updateFile, h.openTruncate, h.writeFile, h.close]

theorem deleteFile_agree (h : sys.AgreeAt req.absPath sys') :
    deleteFile sys w req = deleteFile sys' w req := by
  simp only [deleteFile, h.unlink]

theorem handleRangeRequest_agree (h : sys.AgreeAt req.absPath sys') :
    handleRangeRequest sys w req = handleRangeRequest sys' w req := by
  simp only [handleRangeRequest, h.getMimeType, h.openRead, h.generateBoundary, sendFile_agree h]

theorem statFile_agree (h : sys.AgreeAt req.absPath sys') :
    server.statFile sys w req = server.statFile sys' w req := by
  simp only [Server.statFile, h.getLastModified, h.getFileSize, h.gmtime, h.hexDigest]

private theorem ifRange_absPath (req : Request) : req.ifRange.absPath = req.absPath := by
  unfold Request.ifRange
  split
  · rfl
  · split
    · rfl
    · split
      · rfl
      · split <;> rfl

private theorem serveFile_agree (h : sys.AgreeAt req.absPath sys') :
    server.serveFile sys w headers req = server.serveFile sys' w headers req := by
  have hrange : sys.AgreeAt req.ifRange.absPath sys' := ifRange_absPath req ▸ h
  simp only [Server.serveFile, handleRangeRequest_agree hrange, sendFile_agree hrange]

/-- The file system is used at the path of the file only: a system that does
anything else elsewhere gives the same answer. -/
theorem handleStaticFileRequest_agree (h : sys.AgreeAt (server.filePath req) sys') :
    server.handleStaticFileRequest sys w headers req =
      server.handleStaticFileRequest sys' w headers req := by
  set file : Request :=
    { req with absPath := server.filePath req
               hasFile := sys'.isRegularFile w (server.filePath req) }
  have hat : sys.AgreeAt file.absPath sys' := h
  have hstat : sys.AgreeAt (server.statFile sys w file).absPath sys' := h
  have hsame := h.isRegularFile w
  simp only [Server.handleStaticFileRequest]
  rw [← Server.filePath, hsame]
  split
  · exact congrArg (Option.map fun r => (r.1, file, r.2)) (updateFile_agree hat)
  · exact congrArg (fun r => some (r.1, file, r.2)) (deleteFile_agree hat)
  · split
    · rfl
    · apply (serveFile_agree hstat).trans
      apply congrArg (server.serveFile sys' w headers)
      exact statFile_agree hat

end AgreeAt

theorem parseVersion_ne_ok (version : Bytes) : parseVersion version ≠ .error .ok := by
  unfold parseVersion
  split
  · simp
  · split
    · simp
    · split <;> simp

private theorem parseTarget_path {req req' : Request} {method : Method} {target : Bytes}
    {valid : Bool}
    (h : ({ req with reqMethod := method } : Request).parseTarget target = some (req', valid)) :
    req'.absPath = (decode (target.take (target.idxOf QUESTION)) req.absPath).2 := by
  simp only [Request.parseTarget] at h
  split at h
  · obtain ⟨rfl, -⟩ := Prod.mk.inj (Option.some.inj h)
    rfl
  · split at h
    · obtain ⟨rfl, -⟩ := Prod.mk.inj (Option.some.inj h)
      rfl
    · split at h
      · exact nomatch h
      · obtain ⟨rfl, -⟩ := Prod.mk.inj (Option.some.inj h)
        rfl

private theorem requestPath_eq (absPath : Bytes) {buf method target version : Bytes} {crlf : Nat}
    (hcrlf : findCrlf buf = some crlf) (hsplit : split (buf.take crlf) SP = [method, target, version]) :
    requestPath absPath buf = (decode (target.take (target.idxOf QUESTION)) absPath).2 := by
  simp [requestPath, hcrlf, hsplit]

theorem parseLine_path {req req' : Request} {buf rest : Bytes}
    (h : req.parseLine buf = some (req', rest, .ok)) : req'.absPath = requestPath req.absPath buf := by
  unfold Request.parseLine at h
  split at h
  · simp at h
  case h_2 crlf hcrlf =>
    split at h
    · simp at h
    · split at h
      case h_1 method target version hsplit =>
        rw [requestPath_eq req.absPath hcrlf hsplit]
        split at h
        · simp at h
        case h_2 kind _ =>
          split at h
          · exact nomatch h
          · simp at h
          case h_3 req₁ hparse =>
            have hpath := parseTarget_path hparse
            split at h
            case h_1 code herror =>
              have hcode : code = .ok := by simpa using congrArg (fun r => r.map (·.2.2)) h
              exact absurd (hcode ▸ herror) (parseVersion_ne_ok version)
            case h_2 number _ =>
              obtain ⟨rfl, -⟩ := Prod.mk.inj (Option.some.inj h)
              exact hpath
      · simp at h

theorem confined_append {dir base path : Bytes}
    (hdir : dir = base ∧ base ≠ [] ∨ dir = base ++ [SLASH]) (h : Descends (cStr path)) :
    Confined dir (base ++ path) := by
  by_cases hcut : 0 ∈ base
  · -- the system calls see nothing behind the directory
    have hsame : cStr dir = cStr base := by
      rcases hdir with ⟨rfl, -⟩ | rfl
      · rfl
      · exact cStr_append_cut hcut [SLASH]
    apply Or.inr
    rw [cStr_append_cut hcut, hsame]
    exact Path.inside_refl _
  · have hfree : cStr dir = dir := by
      have hnone : 0 ∉ dir := by
        rcases hdir with ⟨rfl, -⟩ | rfl
        · exact hcut
        · simp [hcut, SLASH]
      have hall := cStr_append_free hnone []
      rw [List.append_nil] at hall
      exact hall.trans (List.append_nil dir)
    simp only [Confined, cStr_append_free hcut, hfree]
    cases hpath : cStr path with
    | nil =>
        rw [List.append_nil]
        rcases hdir with ⟨rfl, -⟩ | rfl
        · exact .inr (Path.inside_refl dir)
        · by_cases hbase : base = []
          · exact .inl hbase
          · exact .inr (Path.inside_trailing hbase)
    | cons c rest =>
        rw [hpath] at h
        obtain ⟨rfl, hstays⟩ := h
        obtain ⟨hplain, htrailing⟩ := Path.inside_append base hstays
        rcases hdir with ⟨rfl, hbase⟩ | rfl
        · exact .inr (hplain hbase)
        · exact .inr htrailing

/-- A path that does not only descend leaves a directory whose name is too long for
it to spell. -/
theorem exists_not_confined {path : Bytes} (h : ¬ Descends (cStr path)) :
    ∃ dir, dir ≠ [] ∧ dir.getLast? ≠ some SLASH ∧ ¬ Confined dir (dir ++ path) := by
  set b : Bytes := List.replicate (path.length + 3) 98 with hb
  have hslash : SLASH ∉ b := by simp [hb, SLASH]
  have hlong : 2 < b.length := by simp [hb]
  have hzero : 0 ∉ SLASH :: b := by simp [hb, SLASH]
  have hlast : (SLASH :: b).getLast? ≠ some SLASH := by
    simp [hb, List.getLast?_cons, List.getLast?_replicate, SLASH]
  refine ⟨SLASH :: b, by simp, hlast, ?_⟩
  have hdir : cStr (SLASH :: b) = SLASH :: b := by
    have hall := cStr_append_free hzero []
    rw [List.append_nil] at hall
    exact hall.trans (List.append_nil _)
  have hlen : (cStr path).length ≤ path.length := (List.takeWhile_sublist _).length_le
  have hblen : b.length = path.length + 3 := by simp [hb]
  simp only [Confined, cStr_append_free hzero, hdir]
  rintro (hnil | hinside)
  · simp at hnil
  · cases hpath : cStr path with
    | nil =>
        rw [hpath] at h
        exact h trivial
    | cons c rest =>
        rw [hpath] at h hinside hlen
        by_cases hc : c = SLASH
        · subst hc
          have hclimb : Path.stays DOT 0 (Path.components SLASH rest) = false := by
            simpa [Descends] using h
          simp only [List.length_cons] at hlen
          exact Path.not_inside_climb hslash hlong (by omega) hclimb hinside
        · exact Path.not_inside_glued hslash hlong hc (by omega) hinside

private theorem setBaseDir_cases (server : Server W) {dir : Bytes} (hdir : dir ≠ []) :
    dir = (server.setBaseDir dir).baseDir ∧ (server.setBaseDir dir).baseDir ≠ [] ∨
    dir = (server.setBaseDir dir).baseDir ++ [SLASH] := by
  simp only [Server.setBaseDir]
  split
  case isTrue hlast =>
    apply Or.inr
    have hend := List.dropLast_append_getLast? SLASH hlast
    exact hend.symm
  case isFalse => exact .inl ⟨rfl, hdir⟩

/-- The file of an accepted request line lies in the base directory, whatever that
is, exactly when the decoded path, up to the first NUL, is empty or starts with a
separator and never climbs above its start. -/
theorem confined_iff {server : Server W} {req req' : Request} {buf rest : Bytes}
    (hline : req.parseLine buf = some (req', rest, .ok)) :
    (∀ dir, dir ≠ [] → Confined dir ((server.setBaseDir dir).filePath req')) ↔
      Descends (cStr (requestPath req.absPath buf)) := by
  rw [← parseLine_path hline]
  constructor
  · intro hconfined
    by_contra hleaves
    obtain ⟨dir, hdir, hlast, hnot⟩ := exists_not_confined hleaves
    have hroot : req'.absPath ≠ ascii "/" := by
      intro hroot
      rw [hroot] at hleaves
      exact hleaves (by decide)
    have hbase : (server.setBaseDir dir).baseDir = dir := by simp [Server.setBaseDir, hlast]
    have hfile := hconfined dir hdir
    simp only [Server.filePath, hbase, if_neg hroot] at hfile
    exact hnot hfile
  · intro hdescends dir hdir
    unfold Server.filePath
    split
    · exact confined_append (setBaseDir_cases server hdir) (by decide)
    · exact confined_append (setBaseDir_cases server hdir) hdescends

theorem confined_below :
    Request.init.parseLine (ascii "GET /a/../b HTTP/1.1\x0d\x0a") =
      some ({ Request.init with absPath := ascii "/a/../b" }, [], .ok) ∧
    ∀ dir, dir ≠ [] → Confined dir (((Server.create [] : Server Unit).setBaseDir dir).filePath
      { Request.init with absPath := ascii "/a/../b" }) := by
  have hline : Request.init.parseLine (ascii "GET /a/../b HTTP/1.1\x0d\x0a") =
      some ({ Request.init with absPath := ascii "/a/../b" }, [], .ok) := by
    decide +kernel
  exact ⟨hline, (confined_iff hline).mpr (by decide +kernel)⟩

/-- A path that climbs, with its dots encoded, is accepted and names a file beside
the directory. -/
theorem encoded_dots_not_confined :
    Request.init.parseLine (ascii "DELETE /%2e%2e/x HTTP/1.1\x0d\x0a") =
      some ({ Request.init with reqMethod := .delete, absPath := ascii "/../x" }, [], .ok) ∧
    ¬ Confined (ascii "/srv") (((Server.create [] : Server Unit).setBaseDir (ascii "/srv")).filePath
      { Request.init with reqMethod := .delete, absPath := ascii "/../x" }) := by
  decide +kernel

end Angel.Http
