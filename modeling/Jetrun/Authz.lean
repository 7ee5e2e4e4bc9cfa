import Jetrun.Id

/-!
# Permissions, principals and scopes

The values an authorization check is about. A scope carries its whole chain of ancestors, so that
a check needs no lookup to find them.
-/

namespace Jetrun

inductive Permission
  | orgRead
  | orgManage
  | memberInvite
  | memberRemove
  | teamManage
  | roleManage
  | billingManage
  | projectCreate
  | projectRead
  | projectManage
  | pipelineRead
  | pipelineWrite
  | pipelineRun
  | runRead
  | runCancel
  | logRead
  | secretWrite
  | secretRead
  | cacheRead
  | cachePurge
  | workerRead
  | workerAdmin
  | tokenManage
  | auditRead
deriving DecidableEq

namespace Permission

def all : List Permission :=
  [orgRead, orgManage, memberInvite, memberRemove, teamManage, roleManage, billingManage,
    projectCreate, projectRead, projectManage, pipelineRead, pipelineWrite, pipelineRun, runRead,
    runCancel, logRead, secretWrite, secretRead, cacheRead, cachePurge, workerRead, workerAdmin,
    tokenManage, auditRead]

def asStr : Permission → String
  | orgRead => "org.read"
  | orgManage => "org.manage"
  | memberInvite => "member.invite"
  | memberRemove => "member.remove"
  | teamManage => "team.manage"
  | roleManage => "role.manage"
  | billingManage => "billing.manage"
  | projectCreate => "project.create"
  | projectRead => "project.read"
  | projectManage => "project.manage"
  | pipelineRead => "pipeline.read"
  | pipelineWrite => "pipeline.write"
  | pipelineRun => "pipeline.run"
  | runRead => "run.read"
  | runCancel => "run.cancel"
  | logRead => "log.read"
  | secretWrite => "secret.write"
  | secretRead => "secret.read"
  | cacheRead => "cache.read"
  | cachePurge => "cache.purge"
  | workerRead => "worker.read"
  | workerAdmin => "worker.admin"
  | tokenManage => "token.manage"
  | auditRead => "audit.read"

/-- `none` for a key this binary does not know. -/
def fromStr (s : String) : Option Permission := all.find? (·.asStr = s)

end Permission

inductive PrincipalKind
  | user
  | team
  | serviceAccount
deriving DecidableEq

/-- Who is acting, within one organization. `system` is internal machinery. -/
inductive Principal
  | user (org : OrgId) (user : UserId)
  | serviceAccount (org : OrgId) (sa : ServiceAccountId)
  | system (org : OrgId)
deriving DecidableEq

namespace Principal

def org : Principal → OrgId
  | .user o _ => o
  | .serviceAccount o _ => o
  | .system o => o

def idString : Principal → Option String
  | .user _ u => some u.toCanonical
  | .serviceAccount _ sa => some sa.toCanonical
  | .system _ => none

def isSystem : Principal → Bool
  | .system _ => true
  | _ => false

end Principal

inductive ScopeKind
  | org
  | project
  | pipeline
deriving DecidableEq

def ScopeKind.asStr : ScopeKind → String
  | org => "org"
  | project => "project"
  | pipeline => "pipeline"

inductive Scope
  | org (org : OrgId)
  | project (org : OrgId) (project : ProjectId)
  | pipeline (org : OrgId) (project : ProjectId) (pipeline : PipelineId)
deriving DecidableEq

namespace Scope

def orgId : Scope → OrgId
  | .org o => o
  | .project o _ => o
  | .pipeline o _ _ => o

def kind : Scope → ScopeKind
  | .org _ => .org
  | .project _ _ => .project
  | .pipeline _ _ _ => .pipeline

def ownId : Scope → String
  | .org o => o.toCanonical
  | .project _ p => p.toCanonical
  | .pipeline _ _ l => l.toCanonical

/-- This scope and every scope above it, nearest first. -/
def lineage : Scope → List (ScopeKind × String)
  | .org o => [(.org, o.toCanonical)]
  | .project o p => [(.project, p.toCanonical), (.org, o.toCanonical)]
  | .pipeline o p l =>
    [(.pipeline, l.toCanonical), (.project, p.toCanonical), (.org, o.toCanonical)]

def coveredBy (scope : Scope) (kind : ScopeKind) (id : String) : Bool :=
  scope.lineage.any fun (k, i) => k = kind ∧ i = id

end Scope

/-- The built-in roles, present in every organization. -/
inductive SystemRole
  | owner
  | admin
  | maintainer
  | developer
  | viewer
  | billing
deriving DecidableEq

namespace SystemRole

def all : List SystemRole := [owner, admin, maintainer, developer, viewer, billing]

def key : SystemRole → String
  | owner => "owner"
  | admin => "admin"
  | maintainer => "maintainer"
  | developer => "developer"
  | viewer => "viewer"
  | billing => "billing"

def displayName : SystemRole → String
  | owner => "Owner"
  | admin => "Admin"
  | maintainer => "Maintainer"
  | developer => "Developer"
  | viewer => "Viewer"
  | billing => "Billing"

def description : SystemRole → String
  | owner => "Full control, including billing and secret values"
  | admin => "Full control except billing and revealing secret values"
  | maintainer => "Manage projects, pipelines, secrets and caches"
  | developer => "Run pipelines and read results"
  | viewer => "Read-only access"
  | billing => "Manage billing only"

open Permission in
def permissions : SystemRole → List Permission
  | owner => Permission.all
  | admin => Permission.all.filter fun p => ¬(p = billingManage ∨ p = secretRead)
  | maintainer =>
    [orgRead, projectCreate, projectRead, projectManage, pipelineRead, pipelineWrite, pipelineRun,
      runRead, runCancel, logRead, secretWrite, cacheRead, cachePurge, workerRead]
  | developer =>
    [orgRead, projectRead, pipelineRead, pipelineRun, runRead, runCancel, logRead, cacheRead]
  | viewer => [orgRead, projectRead, pipelineRead, runRead, logRead]
  | billing => [orgRead, billingManage]

end SystemRole

end Jetrun
