import Ployz.Build.Queue
import Ployz.Build.Upload
import Ployz.Config.BranchPlan
import Ployz.Config.ServiceChanges
import Ployz.Config.Substitution
import Ployz.Config.Sync.Inverse
import Ployz.Config.Sync.Landable
import Ployz.Deploy.Dependencies
import Ployz.Deploy.HostPorts
import Ployz.Deploy.Hostnames
import Ployz.Deploy.Outcome
import Ployz.Deploy.Preflight
import Ployz.Deploy.Replacement
import Ployz.Deploy.Replicas
import Ployz.Machine.ConfigFiles
import Ployz.Machine.EndpointRotation
import Ployz.Machine.Enrollment
import Ployz.Machine.Framing
import Ployz.Machine.LogHistory
import Ployz.Machine.ManagementClients
import Ployz.Machine.PoolGrowth
import Ployz.Serving.Observers
import Ployz.Store.CheckWrite
import Ployz.Store.Cycles
import Ployz.Store.Deployment.Deleting
import Ployz.Store.Deployment.Whole
import Ployz.Store.SetVariable
import Ployz.Store.Teardown
