import HeapHttpd.Http1.Htdoc
import HeapHttpd.Library.Descent

/-!
# Where static files are looked up

The paths that a request makes the server look up, walked segment by segment from
the `html` directory.  The check of the path counts over the whole path, so that
names behind the `..` of a path can pay for them.
-/

namespace HeapHttpd

namespace Http1

namespace Htdoc

open General
open Descent (Move)

/-- The segments of a path that are not empty. -/
def parts (path : List UInt8) : List (List UInt8) :=
  (path.splitOn 0x2f).filter (· ≠ [])

/-- What a segment does when the path is resolved. -/
def partMove (part : List UInt8) : Move (List UInt8) :=
  if part = octets ".." then .up
  else if part = octets "." then .stay
  else .down part

/-- The path goes through the `html` directory of the work path and, segment by
segment, never leaves it. -/
def InsideHtml (workPath path : List UInt8) : Prop :=
  ∃ below, parts path = parts workPath ++ octets "html" :: below ∧
    Descent.Stays (below.map partMove)

/-- Whether a segment is a name. -/
def isName (part : List UInt8) : Bool :=
  part ≠ octets ".." ∧ part ≠ octets "."

/-- No beginning of a path has more `..` than names. -/
def KeepsBelow (path : List UInt8) : Prop :=
  ∀ start, start <+: parts path → start.countP (· = octets "..") ≤ start.countP isName

theorem parts_slash (first second : List UInt8) :
    parts (first ++ 0x2f :: second) = parts first ++ parts second := by
  rw [parts, List.splitOn_append_cons_self, List.filter_append]
  rfl

@[simp]
theorem parts_nil : parts [] = [] :=
  rfl

theorem parts_html : parts (octets "html") = [octets "html"] := by
  decide

theorem keepsBelow_iff (path : List UInt8) :
    KeepsBelow path ↔ Descent.Stays ((parts path).map partMove) := by
  have ups (start : List (List UInt8)) :
      (start.map partMove).countP Move.isUp = start.countP (· = octets "..") := by
    rw [List.countP_map]
    congr 1
    funext part
    simp only [Function.comp, partMove]
    split_ifs <;> simp_all [Move.isUp]
  have downs (start : List (List UInt8)) :
      (start.map partMove).countP Move.isDown = start.countP isName := by
    rw [List.countP_map]
    congr 1
    funext part
    simp only [Function.comp, partMove, isName]
    split_ifs <;> simp_all [Move.isDown]
  rw [Descent.stays_iff, KeepsBelow]
  constructor
  · intro keeps start begins
    obtain ⟨inner, beginsInner, rfl⟩ := (List.prefix_map_iff).mp begins
    rw [ups, downs]
    exact keeps inner beginsInner
  · intro stays start begins
    have := stays _ (begins.map partMove)
    rwa [ups, downs] at this

theorem exists_eq_append_slash {text : List UInt8} (slash : text.getLastD 0 = 0x2f) :
    ∃ start, text = start ++ [0x2f] := by
  rcases text.eq_nil_or_concat with rfl | ⟨start, last, rfl⟩
  · simp at slash
  · refine ⟨start, ?_⟩
    simp only [List.concat_eq_append, List.getLastD_concat] at slash ⊢
    rw [slash]

/-- Behind a slash, a path that begins with one goes on with the same segments. -/
theorem parts_below (first second : List UInt8) :
    parts (first ++ (if second.headD 0 = 0x2f then second else 0x2f :: second)) =
      parts first ++ parts second := by
  split
  · rename_i slash
    cases second with
    | nil => simp at slash
    | cons ch rest =>
        simp only [List.headD_cons] at slash
        rw [slash, parts_slash, ← List.nil_append (0x2f :: rest), parts_slash]
        rfl
  · exact parts_slash ..

/-- A name that is put behind a directory. -/
theorem parts_append_slash (first second : List UInt8) :
    parts ((if first.getLastD 0 = 0x2f then first else first ++ [0x2f]) ++ second) =
      parts first ++ parts second := by
  split
  · rename_i slash
    obtain ⟨start, rfl⟩ := exists_eq_append_slash slash
    rw [List.append_assoc, List.singleton_append, parts_slash, parts_slash, parts_nil,
      List.append_nil]
  · rw [List.append_assoc, List.singleton_append, parts_slash]

theorem parts_resoucefile (site : Site) (resource : List UInt8) :
    parts (resoucefile site resource) =
      parts site.workPath ++ octets "html" :: parts resource := by
  have slashes : resoucefile site resource =
      ((if site.workPath.getLastD 0 = 0x2f then site.workPath else site.workPath ++ [0x2f]) ++
        octets "html") ++ (if resource.headD 0 = 0x2f then resource else 0x2f :: resource) := by
    simp only [resoucefile, ne_eq, ite_not]
    split_ifs <;> simp [octets]
  rw [slashes, parts_below, parts_append_slash, parts_html, List.append_assoc]
  rfl

theorem parts_webDocPath (site : Site) (resource : List UInt8) :
    parts (webDocPath site resource) =
      parts site.workPath ++ octets "html" :: parts resource := by
  have slashes : webDocPath site resource =
      site.workPath ++ 0x2f :: (octets "html" ++ 0x2f :: resource) := by
    rw [webDocPath, List.append_assoc]
    rfl
  rw [slashes, parts_slash, parts_slash, parts_html]
  rfl

theorem parts_defaultResoucefile (directory page : List UInt8) :
    parts (defaultResoucefile directory page) = parts directory ++ parts (cString page) := by
  rw [← parts_append_slash, defaultResoucefile]
  simp only [ne_eq, ite_not]
  rfl

theorem insideHtml_iff {workPath path below : List UInt8}
    (shape : parts path = parts workPath ++ octets "html" :: parts below) :
    InsideHtml workPath path ↔ KeepsBelow below := by
  rw [keepsBelow_iff, InsideHtml]
  constructor
  · rintro ⟨rest, same, stays⟩
    rw [shape, List.append_cancel_left_eq, List.cons.injEq] at same
    rwa [same.2]
  · exact fun stays => ⟨_, shape, stays⟩

/-- The page is looked up in the directory that the resource names. -/
def IsTried (site : Site) (resource page : List UInt8) : Prop :=
  let directory := resoucefile site resource
  site.stat directory = some true ∧ directory.getLastD 0 = 0x2f ∧
    ∃ before after, site.defaultWebpages = before ++ page :: after ∧
      ∀ earlier ∈ before, site.stat (defaultResoucefile directory earlier) ≠ some false

/-- The request is answered by the branch for static files. -/
def IsStatic (site : Site) (method : HttpMethod) (resource : List UInt8) : Prop :=
  (method = .post ∨ method = .get ∨ method = .head) ∧
    servedAsFile site (checkedResource resource)

/-- The pages that the loop over the default pages looks up. -/
theorem mem_findDefaultPage {site : Site} {directory file : List UInt8}
    {pages : List (List UInt8)} :
    file ∈ (findDefaultPage site directory pages).1 ↔
      ∃ page before after, pages = before ++ page :: after ∧
        (∀ earlier ∈ before, site.stat (defaultResoucefile directory earlier) ≠ some false) ∧
        file = defaultResoucefile directory page := by
  induction pages with
  | nil => simp [findDefaultPage]
  | cons first pages ih =>
      simp only [findDefaultPage]
      split
      · rename_i found
        simp only [List.mem_singleton]
        constructor
        · rintro rfl
          exact ⟨first, [], pages, rfl, by simp, rfl⟩
        · rintro ⟨page, before, after, split, earlier, rfl⟩
          cases before with
          | nil =>
              rw [(List.cons.inj split).1]
          | cons _ _ =>
              have same := (List.cons.inj split).1
              exact absurd found (same ▸ earlier _ List.mem_cons_self)
      · rename_i absent
        simp only [List.mem_cons, ih]
        constructor
        · rintro (rfl | ⟨page, before, after, rfl, earlier, rfl⟩)
          · exact ⟨first, [], pages, rfl, by simp, rfl⟩
          · exact ⟨page, first :: before, after, rfl, by simpa using ⟨absent, earlier⟩, rfl⟩
        · rintro ⟨page, before, after, split, earlier, rfl⟩
          cases before with
          | nil =>
              rw [(List.cons.inj split).1]
              exact .inl rfl
          | cons second before =>
              obtain ⟨_, rest⟩ := List.cons.inj split
              exact .inr ⟨page, before, after, rest,
                fun other member => earlier other (List.mem_cons_of_mem _ member), rfl⟩

/-- The page that is found is the first that is a file. -/
theorem findDefaultPage_found {site : Site} {directory page : List UInt8}
    {pages : List (List UInt8)} (found : (findDefaultPage site directory pages).2 = some page) :
    ∃ before after, pages = before ++ page :: after ∧
      ∀ earlier ∈ before, site.stat (defaultResoucefile directory earlier) ≠ some false := by
  induction pages with
  | nil => simp [findDefaultPage] at found
  | cons first pages ih =>
      simp only [findDefaultPage] at found
      split at found
      · simp only [Option.some.injEq] at found
        exact ⟨[], pages, by rw [found]; rfl, by simp⟩
      · rename_i absent
        obtain ⟨before, after, rfl, earlier⟩ := ih found
        exact ⟨first :: before, after, rfl, by simpa using ⟨absent, earlier⟩⟩

theorem resoucefile_mem (site : Site) (resource : List UInt8) :
    resoucefile site resource ∈ serveFile site resource := by
  simp only [serveFile]
  split <;> simp

theorem defaultResoucefile_mem {site : Site} {resource page : List UInt8}
    (tried : IsTried site resource page) :
    defaultResoucefile (resoucefile site resource) page ∈ serveFile site resource := by
  obtain ⟨isDirectory, slash, before, after, split, earlier⟩ := tried
  have looked := mem_findDefaultPage.mpr ⟨page, before, after, split, earlier, rfl⟩
  simp only [serveFile, isDirectory, slash]
  simp [looked]

theorem eq_of_mem_ite {condition : Prop} [Decidable condition] {path file : List UInt8}
    (member : path ∈ if condition then [] else [file]) : path = file := by
  split at member
  · cases member
  · exact List.mem_singleton.mp member

/-- What is looked up: the file itself, default pages in it, and what `web_doc`
makes of either. -/
theorem mem_serveFile {site : Site} {resource path : List UInt8}
    (member : path ∈ serveFile site resource) :
    path = resoucefile site resource ∨ path = webDocPath site resource ∨
      ∃ page, IsTried site resource page ∧
        (path = defaultResoucefile (resoucefile site resource) page ∨
          path = webDocPath site
            ((if resource.getLastD 0 = 0x2f then resource else resource ++ [0x2f]) ++
              cString page)) := by
  simp only [serveFile] at member
  split at member
  · exact .inl (by simpa using member)
  · rename_i slashed
    rw [List.cons_append, List.mem_cons, List.mem_append] at member
    by_cases isDirectory : site.stat (resoucefile site resource) = some true
    · have slash : (resoucefile site resource).getLastD 0 = 0x2f := by
        simpa [isDirectory] using slashed
      rw [if_pos isDirectory] at member
      rcases member with first | looked | web
      · exact .inl first
      · obtain ⟨page, before, after, split, earlier, same⟩ := mem_findDefaultPage.mp looked
        exact .inr (.inr ⟨page, ⟨isDirectory, slash, before, after, split, earlier⟩, .inl same⟩)
      · have same := eq_of_mem_ite web
        cases found : (findDefaultPage site (resoucefile site resource)
          site.defaultWebpages).2 with
        | none =>
            rw [found] at same
            exact .inr (.inl same)
        | some page =>
            obtain ⟨before, after, split, earlier⟩ := findDefaultPage_found found
            rw [found] at same
            refine .inr (.inr ⟨page, ⟨isDirectory, slash, before, after, split, earlier⟩,
              .inr ?_⟩)
            simp only [withDefaultPage, ne_eq, ite_not] at same
            exact same
    · rw [if_neg isDirectory] at member
      rcases member with first | looked | web
      · exact .inl first
      · simp at looked
      · exact .inr (.inl (eq_of_mem_ite web))

/-- Every path that the branch for static files looks up stays in the `html`
directory if and only if the resource does and with it every default page that is
looked up. -/
theorem serveFile_inside_iff (site : Site) (resource : List UInt8) :
    (∀ path ∈ serveFile site resource, InsideHtml site.workPath path) ↔
      KeepsBelow resource ∧
        ∀ page, IsTried site resource page → KeepsBelow (resource ++ 0x2f :: cString page) := by
  have ofPage (page : List UInt8) {path : List UInt8}
      (shape : parts path = parts site.workPath ++
        octets "html" :: (parts resource ++ parts (cString page))) :
      InsideHtml site.workPath path ↔ KeepsBelow (resource ++ 0x2f :: cString page) :=
    insideHtml_iff (by rw [shape, parts_slash])
  have ofTried (page : List UInt8) :
      InsideHtml site.workPath (defaultResoucefile (resoucefile site resource) page) ↔
        KeepsBelow (resource ++ 0x2f :: cString page) := by
    apply ofPage
    rw [parts_defaultResoucefile, parts_resoucefile, List.append_assoc]
    rfl
  constructor
  · intro inside
    refine ⟨?_, fun page tried => ?_⟩
    · exact (insideHtml_iff (parts_resoucefile site resource)).mp
        (inside _ (resoucefile_mem site resource))
    · exact (ofTried page).mp (inside _ (defaultResoucefile_mem tried))
  · rintro ⟨keeps, pages⟩ path member
    rcases mem_serveFile member with rfl | rfl | ⟨page, tried, rfl | rfl⟩
    · exact (insideHtml_iff (parts_resoucefile site resource)).mpr keeps
    · exact (insideHtml_iff (parts_webDocPath site resource)).mpr keeps
    · exact (ofTried page).mpr (pages page tried)
    · refine (ofPage page ?_).mpr (pages page tried)
      rw [parts_webDocPath, parts_append_slash]

theorem keepsBelow_checkedResource (resource : List UInt8) :
    KeepsBelow (checkedResource resource) ↔
      climbs (cString resource) ∨ KeepsBelow (cString resource) := by
  have root : KeepsBelow (octets "/") := by
    rw [keepsBelow_iff]
    decide
  simp only [checkedResource]
  split_ifs with empty climbing
  · simp [climbing, root]
  · simp [climbing]
  · have isRoot : KeepsBelow (cString resource) := by
      rw [not_not.mp empty, keepsBelow_iff]
      decide
    simp [isRoot]

/-- Every path looked up stays in the `html` directory if and only if the request is
not one for a static file, or the resource is refused or never climbs above that
directory, and with it the default pages that are looked up. -/
theorem response_inside_iff (site : Site) (method : HttpMethod) (resource : List UInt8) :
    (∀ path ∈ response site method resource, InsideHtml site.workPath path) ↔
      (IsStatic site method resource →
        (climbs (cString resource) ∨ KeepsBelow (cString resource)) ∧
          ∀ page, IsTried site (checkedResource resource) page →
            KeepsBelow (checkedResource resource ++ 0x2f :: cString page)) := by
  rw [← keepsBelow_checkedResource]
  by_cases static : IsStatic site method resource
  · have served : response site method resource = serveFile site (checkedResource resource) := by
      obtain ⟨allowed, asFile⟩ := static
      rw [response, if_neg (by tauto)]
      simp only [asFile]
      rfl
    rw [served, serveFile_inside_iff]
    exact ⟨fun holds _ => holds, fun holds => holds static⟩
  · have nothing : response site method resource = [] := by
      rw [response]
      split
      · rfl
      · rename_i allowed
        rw [if_neg]
        exact fun asFile => static ⟨by tauto, asFile⟩
    simp [nothing, static]

/-- A site with nothing but the work path. -/
def bareSite : Site :=
  { workPath := octets "/var", cgiNames := [], defaultWebpages := [], stat := fun _ => none }

/-- Names behind the `..` pay for it. -/
theorem not_insideHtml_climbing :
    ¬ ∀ path ∈ response bareSite .get (octets "/../etc/passwd"),
      InsideHtml bareSite.workPath path := by
  intro inside
  have climbing : ¬ KeepsBelow (octets "/../etc/passwd") := by
    rw [keepsBelow_iff]
    decide
  have first := inside (resoucefile bareSite (octets "/../etc/passwd")) (by decide)
  exact climbing ((insideHtml_iff (parts_resoucefile bareSite _)).mp first)

end Htdoc

end Http1

end HeapHttpd
