import HeapHttpd.Http1.CHttp

/-!
# Static files

What `Htdoc::Response` does with a resource: the check of its path, the choice of
the branch that answers, and the paths that the branch for static files and
`web_doc::Response` look up.  The other branches are left out.
-/

namespace HeapHttpd

namespace Http1

namespace Htdoc

open General

/-- The loop of `vSplitString` over what follows the separators found, with the
octets since the last of them; `count` separators are still honoured. -/
def splitLoop (szSeparator : List UInt8) (emptyignore : Bool) :
    Nat → List UInt8 → List UInt8 → List (List UInt8)
  | _, strTemp, [] =>
      if cString strTemp = [] ∧ emptyignore then [] else [cString strTemp]
  | count, strTemp, ch :: rest =>
      if ch ∈ szSeparator then
        match count with
        | 0 =>
            let rest := cString (strTemp ++ ch :: rest)
            if rest = [] ∧ emptyignore then [] else [rest]
        | count + 1 =>
            let behind := splitLoop szSeparator emptyignore count [] rest
            if strTemp = [] ∧ emptyignore then behind else strTemp :: behind
      else splitLoop szSeparator emptyignore count (strTemp ++ [ch]) rest

/-- `vSplitString`. -/
def vSplitString (strSrc szSeparator : List UInt8) (emptyignore : Bool) (count : Nat) :
    List (List UInt8) :=
  if strSrc = [] then [] else splitLoop szSeparator emptyignore count [] strSrc

/-- `get_extend_name`. -/
def getExtendName (filename : List UInt8) : List UInt8 :=
  let vTmp := vSplitString (cString filename) (octets ".") false 0x7fffffff
  if 1 < vTmp.length then vTmp.getLastD [] else []

/-- Whether a path has at least as many `..` as names. -/
def climbs (strResource : List UInt8) : Bool :=
  let vPath := vSplitString strResource (octets "/") true 0x7fffffff
  let nCDUP := vPath.countP (· = octets "..")
  let nCDIN := vPath.countP fun part => part ≠ octets ".." ∧ part ≠ octets "."
  nCDIN ≤ nCDUP

/-- The resource after the check of its path. -/
def checkedResource (resource : List UInt8) : List UInt8 :=
  let strResource := cString resource
  if strResource ≠ [] then
    if climbs strResource then octets "/" else strResource
  else strResource

/-- What the configuration and the file system give: the names of the CGI programs,
the default pages, and for each path what `stat` finds, a directory or not. -/
structure Site where
  workPath : List UInt8
  cgiNames : List (List UInt8)
  defaultWebpages : List (List UInt8)
  stat : List UInt8 → Option Bool

/-- Whether no other branch takes a resource. -/
def servedAsFile (site : Site) (strResource : List UInt8) : Bool :=
  !(octets "/api/").isPrefixOf strResource &&
    !(octets "/cgi-bin/").isPrefixOf strResource &&
    !site.cgiNames.any fun name => (octets "/" ++ cString name ++ octets "/").isPrefixOf strResource

/-- `resoucefile`. -/
def resoucefile (site : Site) (resource : List UInt8) : List UInt8 :=
  let file := site.workPath ++
    (if site.workPath.getLastD 0 = 0x2f then octets "html" else octets "/html")
  (if resource.headD 0 ≠ 0x2f then file ++ octets "/" else file) ++ resource

/-- The path of a default page in a directory. -/
def defaultResoucefile (directory page : List UInt8) : List UInt8 :=
  (if directory.getLastD 0 ≠ 0x2f then directory ++ octets "/" else directory) ++ cString page

/-- The loop over the default pages: the paths it looks up, and the page it finds. -/
def findDefaultPage (site : Site) (directory : List UInt8) :
    List (List UInt8) → List (List UInt8) × Option (List UInt8)
  | [] => ([], none)
  | page :: pages =>
      let file := defaultResoucefile directory page
      if site.stat file = some false then ([file], some page)
      else
        let (files, found) := findDefaultPage site directory pages
        (file :: files, found)

/-- The path that `web_doc::Response` looks up and reads. -/
def webDocPath (site : Site) (resource : List UInt8) : List UInt8 :=
  site.workPath ++ octets "/html/" ++ resource

/-- The resource with the default page that was found in it. -/
def withDefaultPage (resource : List UInt8) : Option (List UInt8) → List UInt8
  | none => resource
  | some page =>
      (if resource.getLastD 0 ≠ 0x2f then resource ++ octets "/" else resource) ++ cString page

/-- The branch for static files: the paths that it looks up or reads. -/
def serveFile (site : Site) (resource : List UInt8) : List (List UInt8) :=
  let file := resoucefile site resource
  let isDirectory := site.stat file = some true
  if isDirectory ∧ file.getLastD 0 ≠ 0x2f then [file]
  else
    let (tried, found) :=
      if isDirectory then findDefaultPage site file site.defaultWebpages else ([], none)
    let resource := withDefaultPage resource found
    file :: tried ++
      if cString (getExtendName (lowercase resource)) = octets "php" then []
      else [webDocPath site resource]

/-- `Htdoc::Response` for a request that is no handshake: the paths that the branch
for static files and `web_doc::Response` look up or read. -/
def response (site : Site) (method : HttpMethod) (resource : List UInt8) : List (List UInt8) :=
  if method ≠ .post ∧ method ≠ .get ∧ method ≠ .head then []
  else
    let strResource := checkedResource resource
    if servedAsFile site strResource then serveFile site strResource else []

end Htdoc

end Http1

end HeapHttpd
