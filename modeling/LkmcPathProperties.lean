import LkmcPathProperties.Python
import LkmcPathProperties.Properties
import LkmcPathProperties.Tree
import LkmcPathProperties.Build
import LkmcPathProperties.Scan
import LkmcPathProperties.Objects
import LkmcPathProperties.ObjectsRun
import LkmcPathProperties.ObjectsLayout
import LkmcPathProperties.ObjectsShared
import LkmcPathProperties.ObjectsBuild
import LkmcPathProperties.Resolve
import LkmcPathProperties.Walk
import LkmcPathProperties.Eligibility
import LkmcPathProperties.Tuples
