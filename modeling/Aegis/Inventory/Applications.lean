import Aegis.Inventory.Agents
import Aegis.Inventory.Protection

/-!
# Creating applications

`CreateApplication` of `application/inventory.py`, with the tags `InventoryPolicy` lets through.
The identifiers it draws are its arguments, with the time its transaction began at.
-/

namespace Aegis.Inventory

open Aegis.Server Aegis.Access Aegis.Api

/-! ## Tags -/

namespace InventoryPolicy

/-- How many tags an application may have. -/
def MAX_TAGS : Nat := 20

/-- `_ALLOWED_TAG.match(candidate)`: letters, digits, dots, hyphens and underscores, with a letter
or digit at each end. -/
def isTag (candidate : PyStr) : Bool :=
  2 ≤ candidate.length && candidate.length ≤ 40 && candidate.head?.any Slug.isSlugCharacter &&
    candidate.getLast?.any Slug.isSlugCharacter && candidate.all fun c ↦
      Slug.isSlugCharacter c || c.val == 95 || c.val == 46 || c.val == 45

/-- The message about a text that is no tag. -/
def invalidTag (library : Library) (tag : PyStr) : PyStr :=
  py "Invalid tag " ++ library.repr (.str tag) ++
    py ": use 2-40 lowercase alphanumerics, dot, dash or underscore."

/-- The tags that are new, in the order they were first seen in, or the message of the
`ValueError`. -/
def collectTags (library : Library) (seen : List PyStr) : List PyStr → Except PyStr (List PyStr)
  | [] => .ok seen
  | tag :: tags =>
      let candidate := library.lower tag.strip
      if candidate.isEmpty then collectTags library seen tags
      else if !isTag candidate then .error (invalidTag library tag)
      else if seen.contains candidate then collectTags library seen tags
      else collectTags library (seen ++ [candidate]) tags

/-- `policy.normalize_tags(tags)`. -/
def normalizeTags (library : Library) (tags : List PyStr) : Except PyStr (List PyStr) := do
  let seen ← collectTags library [] tags
  if MAX_TAGS < seen.length then
    .error (py "At most " ++ PyStr.decimal MAX_TAGS ++ py " tags are allowed.")
  else .ok seen

/-- The tags of a request, or the error of the use case about them. -/
def checkTags (library : Library) (tags : List PyStr) : Except DomainError (List PyStr) :=
  match normalizeTags library tags with
  | .ok normalized => .ok normalized
  | .error message => .error (.ValidationError message (py "tags") [])

end InventoryPolicy

/-! ## Creation -/

structure ApplicationSummary where
  id : Uuid
  name : PyStr
  slug : PyStr
  language : PyStr
  criticality : PyStr
  tags : List PyStr
  repositoryUrl : Option PyStr
  description : PyStr
  createdAt : Option Instant
  environments : List EnvironmentSummary
  deriving DecidableEq, Repr

/-- `_application_summary(application, environments)` of an application that was just made: its row
has a time, the entity has none. -/
def applicationSummary (application : Application) (environments : List ApplicationEnvironment) :
    ApplicationSummary :=
  ⟨application.id, application.name, application.slug, application.language.value,
    application.criticality.value, application.tags, application.repositoryUrl, application.description,
    none, environments.map environmentSummary⟩

/-- What an application is created from. -/
structure CreateApplication where
  principal : Principal
  name : PyStr
  language : Language
  criticality : Criticality
  tags : List PyStr
  repositoryUrl : Option PyStr
  description : PyStr
  environments : List (EnvironmentKind × Bool)
  applicationId : Uuid
  environmentIds : Nat → Uuid
  databaseNow : Instant

namespace CreateApplication

/-- The error of a slug another application of the tenant has. -/
def slugTaken (library : Library) (slug : PyStr) : DomainError :=
  .ConflictError (py "An application with the slug " ++ library.repr (.str slug) ++
    py " already exists.")

variable (request : CreateApplication)

/-- `(repository_url or "").strip() or None`. -/
def repository : Option PyStr :=
  let url := (request.repositoryUrl.getD []).strip
  if url.isEmpty then none else some url

/-- The environments of the application: those that were asked for, or the one of production. -/
def environmentsOf (application : Application) : List ApplicationEnvironment :=
  let asked := if request.environments.isEmpty then [(.PRODUCTION, false)]
    else request.environments
  asked.zipIdx.map fun (asked, i) ↦
    { ApplicationEnvironment.make (request.environmentIds i) request.principal.organizationId
        application.id asked.1 with internetFacing := asked.2 }

/-- The part of `CreateApplication.execute` that follows the check of the licence. -/
def create (unicode : Unicode) (tags : List PyStr) : Tx ApplicationSummary Empty := do
  let organizationId := request.principal.organizationId
  let slug ← check (Slug.fromName unicode request.name)
  let existing ← Applications.getBySlug organizationId slug
  refuseIf existing.isSome (slugTaken unicode.library slug)
  let application ← check (Application.make request.applicationId organizationId request.name slug
    request.language request.criticality tags request.repository request.description)
  Applications.add application
  let environments := request.environmentsOf application
  Txn.each environments fun environment ↦ Environments.add environment request.databaseNow
  Audit.record request.principal (py "application.created") (py "application")
    (some application.id)
  .commit (.ok (applicationSummary application environments))

/-- `CreateApplication.execute(…)`. -/
def execute (unicode : Unicode) : Tx ApplicationSummary Empty := do
  check (request.principal.require .APP_WRITE)
  let tags ← check (InventoryPolicy.checkTags unicode.library request.tags)
  let organizationId := request.principal.organizationId
  RegisterAgent.checkLicense organizationId License.checkApplications
    (Applications.count organizationId)
  request.create unicode tags

end CreateApplication

end Aegis.Inventory
